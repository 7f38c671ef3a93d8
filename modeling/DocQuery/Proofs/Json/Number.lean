import DocQuery.Json.Number
import DocQuery.Proofs.Binary64.Shortest
import DocQuery.Proofs.Json.Numeral

/-!
# Numbers from their numerals

Every number is read from the numeral that is written for it (`Number.ofNumeral?_numeral`).  Of an
integer this is a matter of its range.  The numeral of a binary64 number denotes its shortest decimal,
written out or with an exponent (`Number.exists_denoted_realNumeral_eq`), and this reads back to the
number; it never has so many digits that the reader tells some of them no longer apart.
-/

namespace DocQuery.Json.Number

open Numeral

/-! ### Integers -/

theorem isPlain_of_head_ne_zero {digits : List Char} (h : ∀ c ∈ digits.head?, c ≠ '0') :
    isPlain digits = true := by
  unfold isPlain
  split
  · exact absurd rfl (h '0' rfl)
  · rfl

theorem isPlain_singleton (c : Char) : isPlain [c] = true := by
  unfold isPlain
  split
  · next heq => cases heq
  · rfl

theorem isPlain_ofNat (n : Nat) : isPlain (Digits.ofNat n) = true := by
  by_cases hzero : n = 0
  · rw [hzero]
    rfl
  · exact isPlain_of_head_ne_zero fun _ => Digits.head_ofNat_ne_zero hzero

theorem wellFormed_integer (negative : Bool) (n : Nat) :
    WellFormed ⟨negative, Digits.ofNat n, none, none⟩ where
  whole := Digits.isRun_ofNat n
  plain := isPlain_ofNat n
  fraction := nofun
  exponent := nofun

/-! ### Layouts of a binary64 number -/

theorem isRun_orZero {digits : List Char} (h : ∀ c ∈ digits, c.isDigit = true) :
    Digits.IsRun (orZero digits) := by
  unfold orZero
  split
  · exact ⟨by simp, by simp⟩
  · next hne => exact ⟨hne, h⟩

section Layouts

variable {digits : List Char} {exponent : Int}

theorem writtenOut_of_neg (negative : Bool) (h : exponent < 0) :
    writtenOut negative digits exponent =
      ⟨negative, ['0'], some (List.replicate (exponent.natAbs - 1) '0' ++ digits), none⟩ :=
  if_pos h

theorem writtenOut_of_nonneg (negative : Bool) (h : 0 ≤ exponent) :
    writtenOut negative digits exponent =
      ⟨negative, digits.take (exponent.toNat + 1) ++
          List.replicate (exponent.toNat + 1 - digits.length) '0',
        some (orZero (digits.drop (exponent.toNat + 1))), none⟩ :=
  if_neg (Int.not_lt.mpr h)

theorem wellFormed_writtenOut (negative : Bool) (h : Digits.IsRun digits)
    (hplain : (∀ c ∈ digits.head?, c ≠ '0') ∨ digits = ['0'] ∧ exponent = 0) :
    WellFormed (writtenOut negative digits exponent) := by
  by_cases hneg : exponent < 0
  · rw [writtenOut_of_neg negative hneg]
    refine { whole := ⟨by simp, by simp⟩, plain := rfl, fraction := ?_, exponent := nofun }
    intro fraction hfraction
    obtain rfl := Option.some.inj hfraction
    exact h.append_left fun _ => Digits.isDigit_of_mem_replicate_zero
  · rw [writtenOut_of_nonneg negative (Int.not_lt.mp hneg)]
    refine { whole := ?_, plain := ?_, fraction := ?_, exponent := nofun }
    · exact (h.take_succ _).append_right fun _ => Digits.isDigit_of_mem_replicate_zero
    · rcases hplain with hhead | ⟨hdigits, hexponent⟩
      · obtain ⟨first, rest, rfl⟩ := List.exists_cons_of_ne_nil h.ne_nil
        exact isPlain_of_head_ne_zero fun c hc => hhead c (by simpa using hc)
      · rw [hdigits, hexponent]
        rfl
    · intro fraction hfraction
      obtain rfl := Option.some.inj hfraction
      exact isRun_orZero fun c hc => h.isDigit c (List.mem_of_mem_drop hc)

theorem wellFormed_withExponent (negative : Bool) (h : Digits.IsRun digits) :
    WellFormed (withExponent negative digits exponent) where
  whole := h.take_succ 0
  plain := by
    obtain ⟨first, rest, rfl⟩ := List.exists_cons_of_ne_nil h.ne_nil
    exact isPlain_singleton first
  fraction := by
    intro fraction hfraction
    simp only [withExponent] at hfraction
    split at hfraction
    · cases hfraction
    · next hne =>
      obtain rfl := Option.some.inj hfraction
      exact ⟨hne, fun c hc => h.isDigit c (List.mem_of_mem_drop hc)⟩
  exponent := by
    intro e he
    obtain rfl := Option.some.inj he
    exact Digits.isRun_ofNat _

theorem denoted_writtenOut_of_neg (negative : Bool) (h : exponent < 0) :
    (writtenOut negative digits exponent).denoted = Decimal.ofDigits digits exponent := by
  rw [writtenOut_of_neg negative h]
  ext
  · rw [denoted_coefficient, Option.getD_some, List.singleton_append, Digits.value_zero_cons,
      Digits.value_replicate_zero_append, Decimal.ofDigits_coefficient]
  · rw [denoted_exponent, Option.getD_some, exponentValue_none, List.length_append,
      List.length_replicate, Decimal.ofDigits_exponent]
    omega

/-- Digits that do not reach the point are followed by zeros, of which one stands behind it. -/
theorem denoted_writtenOut_of_length_le (negative : Bool) (h : 0 ≤ exponent)
    (hlength : digits.length ≤ exponent.toNat + 1) :
    (writtenOut negative digits exponent).denoted =
      (Decimal.ofDigits digits exponent).scale (exponent.toNat + 1 - digits.length + 1) := by
  rw [writtenOut_of_nonneg negative h, List.take_of_length_le hlength,
    List.drop_of_length_le hlength]
  ext
  · rw [denoted_coefficient, Decimal.scale_coefficient, Decimal.ofDigits_coefficient,
      ← Digits.value_append_replicate_zero, List.replicate_succ', ← List.append_assoc]
    rfl
  · rw [denoted_exponent, exponentValue_none, Decimal.scale_exponent, Decimal.ofDigits_exponent]
    simp only [orZero, if_true, Option.getD_some, List.length_singleton]
    omega

theorem denoted_writtenOut_of_lt_length (negative : Bool) (h : 0 ≤ exponent)
    (hlength : exponent.toNat + 1 < digits.length) :
    (writtenOut negative digits exponent).denoted = Decimal.ofDigits digits exponent := by
  have hbehind : orZero (digits.drop (exponent.toNat + 1)) = digits.drop (exponent.toNat + 1) :=
    if_neg (by simpa using hlength)
  have hnone : exponent.toNat + 1 - digits.length = 0 := by omega
  rw [writtenOut_of_nonneg negative h, hbehind, hnone, List.replicate_zero, List.append_nil]
  ext
  · rw [denoted_coefficient, Option.getD_some, List.take_append_drop, Decimal.ofDigits_coefficient]
  · rw [denoted_exponent, exponentValue_none, Option.getD_some, List.length_drop,
      Decimal.ofDigits_exponent]
    omega

theorem denoted_withExponent (negative : Bool) (h : digits ≠ []) :
    (withExponent negative digits exponent).denoted = Decimal.ofDigits digits exponent := by
  obtain ⟨first, rest, rfl⟩ := List.exists_cons_of_ne_nil h
  have hfraction : (withExponent negative (first :: rest) exponent).fraction.getD [] = rest := by
    simp only [withExponent, List.drop_succ_cons, List.drop_zero]
    split
    · next hnil => exact hnil.symm
    · rfl
  have hexponent : (withExponent negative (first :: rest) exponent).exponentValue = exponent := by
    simp only [exponentValue, withExponent, Digits.value_ofNat, decide_eq_true_eq]
    split <;> omega
  ext
  · rw [denoted_coefficient, hfraction]
    rfl
  · rw [denoted_exponent, hfraction, hexponent, Decimal.ofDigits_exponent, List.length_cons]
    omega

end Layouts

/-! ### Binary64 numbers -/

/-- The numeral of a number is its shortest decimal in one of the two layouts. -/
theorem realNumeral_cases (x : Binary64) {d : Decimal} (hd : Binary64.shortest x.magnitude = d) :
    (d.leadingExponent ≤ 15 ∧
      realNumeral x = writtenOut x.isNegative d.digits d.leadingExponent) ∨
        realNumeral x = withExponent x.isNegative d.digits d.leadingExponent := by
  by_cases hrange : leastWrittenOut ≤ d.leadingExponent ∧ d.leadingExponent ≤ greatestWrittenOut
  · refine Or.inl ⟨hrange.2, ?_⟩
    simp only [realNumeral, hd, if_pos hrange]
  · refine Or.inr ?_
    simp only [realNumeral, hd, if_neg hrange]

/-- The numeral of a number denotes its shortest decimal, perhaps with some zeros behind the
digits. -/
theorem exists_denoted_realNumeral_eq (x : Binary64) {d : Decimal}
    (hd : Binary64.shortest x.magnitude = d) :
    ∃ k, (realNumeral x).denoted = (Decimal.ofDigits d.digits d.leadingExponent).scale k ∧
      d.digits.length + k ≤ max d.digits.length 17 := by
  rcases realNumeral_cases x hd with ⟨hsmall, hlayout⟩ | hlayout <;> rw [hlayout]
  · by_cases hneg : d.leadingExponent < 0
    · exact ⟨0, by rw [denoted_writtenOut_of_neg _ hneg, Decimal.scale_zero], by omega⟩
    · by_cases hlength : d.digits.length ≤ d.leadingExponent.toNat + 1
      · exact ⟨_, denoted_writtenOut_of_length_le _ (by omega) hlength, by omega⟩
      · refine ⟨0, ?_, by omega⟩
        rw [denoted_writtenOut_of_lt_length _ (by omega) (by omega), Decimal.scale_zero]
  · exact ⟨0, by rw [denoted_withExponent _ d.digits_ne_nil, Decimal.scale_zero], by omega⟩

theorem wellFormed_realNumeral {x : Binary64} (hx : x.isFinite = true) :
    WellFormed (realNumeral x) := by
  have hfinite : x.magnitude < Binary64.infinity := by simpa [Binary64.isFinite] using hx
  have hrun : Digits.IsRun (Binary64.shortest x.magnitude).digits :=
    ⟨Decimal.digits_ne_nil _, fun _ => Decimal.isDigit_of_mem_digits⟩
  rcases realNumeral_cases x rfl with ⟨-, hlayout⟩ | hlayout <;> rw [hlayout]
  · apply wellFormed_writtenOut _ hrun
    by_cases hzero : x.magnitude = 0
    · rw [hzero]
      exact Or.inr ⟨by decide, by decide⟩
    · have hcoefficient := Binary64.coefficient_shortest_ne_zero hzero hfinite
      exact Or.inl fun _ => Decimal.head_digits_ne_zero hcoefficient
  · exact wellFormed_withExponent _ hrun

theorem negative_realNumeral (x : Binary64) : (realNumeral x).negative = x.isNegative := by
  rcases realNumeral_cases x rfl with ⟨-, hlayout⟩ | hlayout <;> rw [hlayout]
  · unfold writtenOut
    split <;> rfl
  · rfl

/-- A point or an exponent tells the numeral from an integer. -/
theorem isInteger_realNumeral (x : Binary64) : (realNumeral x).isInteger = false := by
  rcases realNumeral_cases x rfl with ⟨-, hlayout⟩ | hlayout <;> rw [hlayout]
  · unfold writtenOut
    split <;> rfl
  · exact Bool.and_false _

/-- A finite number is the nearest one to the decimal that its numeral is rounded from. -/
theorem ofDecimal_realNumeral {x : Binary64} (hx : x.isFinite = true) :
    Binary64.ofDecimal (realNumeral x).negative (realNumeral x).decimal = x := by
  have hfinite : x.magnitude < Binary64.infinity := by simpa [Binary64.isFinite] using hx
  have hlength := Binary64.length_digits_shortest hfinite
  obtain ⟨j, hdenoted, hzeros⟩ := exists_denoted_realNumeral_eq x rfl
  have hfew : (realNumeral x).denoted.coefficient < 10 ^ digitLimit := by
    have hvalue : Digits.value (Binary64.shortest x.magnitude).digits <
        10 ^ (Binary64.shortest x.magnitude).digits.length :=
      Digits.value_lt_pow fun _ => Decimal.isDigit_of_mem_digits
    rw [hdenoted, Decimal.scale_coefficient, Decimal.ofDigits_coefficient]
    calc Digits.value (Binary64.shortest x.magnitude).digits * 10 ^ j
        < 10 ^ (Binary64.shortest x.magnitude).digits.length * 10 ^ j :=
          Nat.mul_lt_mul_of_pos_right hvalue (Nat.pow_pos (by decide))
      _ = 10 ^ ((Binary64.shortest x.magnitude).digits.length + j) := (Nat.pow_add _ _ _).symm
      _ ≤ 10 ^ digitLimit := Nat.pow_le_pow_right (by decide) (by unfold digitLimit; omega)
  -- what is rounded, what is written and what was found are splits of the same number
  obtain ⟨k, hdecimal⟩ := exists_denoted_eq_scale (wellFormed_realNumeral hx) hfew
  obtain ⟨i, hshortest⟩ := (Binary64.shortest x.magnitude).exists_eq_scale_ofDigits
  calc Binary64.ofDecimal (realNumeral x).negative (realNumeral x).decimal
      = Binary64.ofDecimal x.isNegative ((realNumeral x).decimal.scale k) := by
        rw [negative_realNumeral, Binary64.ofDecimal_scale]
    _ = Binary64.ofDecimal x.isNegative (Binary64.shortest x.magnitude) := by
        rw [← hdecimal, hdenoted, Binary64.ofDecimal_scale]
        conv_rhs => rw [hshortest, Binary64.ofDecimal_scale]
    _ = Binary64.ofMagnitude x.isNegative x.magnitude := by
        rw [← Binary64.ofMagnitude_toMagnitude, Binary64.toMagnitude_shortest hfinite]
    _ = x := Binary64.ofMagnitude_magnitude x

/-! ### All numbers -/

theorem wellFormed_numeral (n : Number) : WellFormed n.numeral := by
  cases n with
  | natural n => exact wellFormed_integer false n.toNat
  | negative n _ => exact wellFormed_integer true n.toInt.natAbs
  | real x hx => exact wellFormed_realNumeral hx

theorem ofNumeral?_natural (n : UInt64) : ofNumeral? (natural n).numeral = some (natural n) := by
  have hvalue : (natural n).numeral.wholeValue = n.toNat := Digits.value_ofNat _
  have hword : UInt64.ofNat n.toNat = n := UInt64.ofNat_toNat
  have hlt : (natural n).numeral.wholeValue < UInt64.size := by
    rw [hvalue]
    exact n.toNat_lt
  have hinteger : (natural n).numeral.isInteger = true := rfl
  have hsign : ¬ (natural n).numeral.negative = true := Bool.false_ne_true
  rw [ofNumeral?, if_pos hinteger, if_neg hsign, if_pos hlt, hvalue, hword]

theorem ofNumeral?_negative {n : Int64} (hn : n < 0) :
    ofNumeral? (negative n hn).numeral = some (negative n hn) := by
  have hvalue : (negative n hn).numeral.wholeValue = n.toInt.natAbs := Digits.value_ofNat _
  have hneg : n.toInt < 0 := Int64.lt_iff_toInt_lt.mp hn
  have hword : Int64.ofInt (-((negative n hn).numeral.wholeValue : Int)) = n := by
    rw [hvalue, show -(n.toInt.natAbs : Int) = n.toInt by omega, Int64.ofInt_toInt]
  have hrange : (negative n hn).numeral.wholeValue ≤ 0x8000000000000000 ∧
      Int64.ofInt (-((negative n hn).numeral.wholeValue : Int)) < 0 := by
    have hbound := n.le_toInt
    exact ⟨by omega, by rw [hword]; exact hn⟩
  have hinteger : (negative n hn).numeral.isInteger = true := rfl
  have hsign : (negative n hn).numeral.negative = true := rfl
  rw [ofNumeral?, if_pos hinteger, if_pos hsign, dif_pos hrange]
  simp only [hword]

theorem ofNumeral?_real {x : Binary64} (hx : x.isFinite = true) :
    ofNumeral? (real x hx).numeral = some (real x hx) := by
  rw [numeral, ofNumeral?, isInteger_realNumeral, if_neg (by decide), realOfNumeral?,
    ofDecimal_realNumeral hx, ofBinary64?, dif_pos hx]

/-- A number is read from its numeral. -/
theorem ofNumeral?_numeral (n : Number) : ofNumeral? n.numeral = some n := by
  cases n with
  | natural n => exact ofNumeral?_natural n
  | negative n hn => exact ofNumeral?_negative hn
  | real x hx => exact ofNumeral?_real hx

end DocQuery.Json.Number
