import DocQuery.Json.Numeral
import DocQuery.Proofs.Decimal

/-!
# Numerals from their texts

A numeral made of runs of digits is read from its text (`Numeral.ofText?_text`).  What it denotes, all
its digits counted (`Numeral.denoted`), is the decimal that it is rounded from, unless it has more
digits than are read one by one (`Numeral.exists_denoted_eq_scale`).
-/

namespace DocQuery.Json

/-! ### Where a run of characters ends -/

/-- A text does not go on with a character of the given kind. -/
def Stops (kind : Char → Bool) (rest : List Char) : Prop :=
  ∀ c ∈ rest.head?, kind c = false

theorem takeWhile_append_of_stops {kind : Char → Bool} {run rest : List Char}
    (hrun : ∀ c ∈ run, kind c = true) (hrest : Stops kind rest) :
    (run ++ rest).takeWhile kind = run := by
  have hnone : rest.takeWhile kind = [] := by
    cases rest with
    | nil => rfl
    | cons c rest => exact List.takeWhile_cons_of_neg (by simp [hrest c rfl])
  rw [List.takeWhile_append_of_pos hrun, hnone, List.append_nil]

theorem dropWhile_append_of_stops {kind : Char → Bool} {run rest : List Char}
    (hrun : ∀ c ∈ run, kind c = true) (hrest : Stops kind rest) :
    (run ++ rest).dropWhile kind = rest := by
  rw [List.dropWhile_append_of_pos hrun]
  cases rest with
  | nil => rfl
  | cons c rest => exact List.dropWhile_cons_of_neg (by simp [hrest c rfl])

namespace Numeral

/-- The parts of a numeral are runs of digits, and the whole part has no needless zero in front. -/
structure WellFormed (n : Numeral) : Prop where
  whole : Digits.IsRun n.whole
  plain : isPlain n.whole = true
  fraction : ∀ digits ∈ n.fraction, Digits.IsRun digits
  exponent : ∀ e ∈ n.exponent, Digits.IsRun e.2

/-- A numeral is written with digits, signs, a point and the letter `e`. -/
theorem WellFormed.mem_text {n : Numeral} (h : n.WellFormed) {c : Char} (hc : c ∈ n.text) :
    c.isDigit = true ∨ c ∈ ['-', '+', '.', 'e'] := by
  rw [text, List.mem_append, List.mem_append, List.mem_append] at hc
  rcases hc with ((hsign | hwhole) | hfraction) | hexponent
  · split at hsign
    · exact Or.inr (List.mem_append_left ['+', '.', 'e'] hsign)
    · cases hsign
  · exact Or.inl (h.whole.isDigit c hwhole)
  · cases hdigits : n.fraction with
    | none => simp [hdigits, fractionText] at hfraction
    | some digits =>
      rw [hdigits, fractionText, List.mem_cons] at hfraction
      exact hfraction.symm.imp ((h.fraction digits hdigits).isDigit c) fun hpoint => by simp [hpoint]
  · cases hdigits : n.exponent with
    | none => simp [hdigits, exponentText] at hexponent
    | some e =>
      rw [hdigits, exponentText, List.mem_cons, List.mem_cons, ← or_assoc] at hexponent
      refine hexponent.symm.imp ((h.exponent e hdigits).isDigit c) fun hsign => ?_
      split at hsign <;> rcases hsign with hsign | hsign <;> simp [hsign]

/-! ### Reading what was written -/

theorem splitDigits_append {digits rest : List Char} (h : Digits.IsRun digits)
    (hrest : Stops Char.isDigit rest) : splitDigits (digits ++ rest) = some (digits, rest) := by
  obtain ⟨first, others, rfl⟩ := List.exists_cons_of_ne_nil h.ne_nil
  rw [splitDigits, takeWhile_append_of_stops h.isDigit hrest,
    dropWhile_append_of_stops h.isDigit hrest]

theorem splitSign_append (negative : Bool) {digits : List Char} (h : Digits.IsRun digits)
    (rest : List Char) : splitSign ((if negative then ['-'] else []) ++ (digits ++ rest)) =
      (negative, digits ++ rest) := by
  cases negative with
  | true => rfl
  | false =>
    obtain ⟨first, others, rfl⟩ := List.exists_cons_of_ne_nil h.ne_nil
    have hsign : first ≠ '-' := by
      rintro rfl
      exact absurd (h.isDigit '-' List.mem_cons_self) (by decide)
    unfold splitSign
    split
    · next heq => exact absurd (List.cons.inj heq).1 hsign
    · rfl

theorem stops_exponentText (exponent : Option (Bool × List Char)) :
    Stops Char.isDigit (exponentText exponent) := by
  rintro c hc
  cases exponent with
  | none => cases hc
  | some e =>
    obtain rfl := Option.some.inj hc
    rfl

theorem stops_fractionText_append (fraction : Option (List Char))
    (exponent : Option (Bool × List Char)) :
    Stops Char.isDigit (fractionText fraction ++ exponentText exponent) := by
  cases fraction with
  | none => exact stops_exponentText exponent
  | some digits =>
    rintro c hc
    obtain rfl := Option.some.inj hc
    rfl

theorem splitFraction_append {fraction : Option (List Char)}
    (h : ∀ digits ∈ fraction, Digits.IsRun digits) (exponent : Option (Bool × List Char)) :
    splitFraction (fractionText fraction ++ exponentText exponent) =
      some (fraction, exponentText exponent) := by
  cases fraction with
  | none => cases exponent <;> rfl
  | some digits =>
    rw [fractionText, List.cons_append, splitFraction,
      splitDigits_append (h digits rfl) (stops_exponentText exponent)]
    rfl

theorem splitExponent_exponentText {exponent : Option (Bool × List Char)}
    (h : ∀ e ∈ exponent, Digits.IsRun e.2) :
    splitExponent (exponentText exponent) = some (exponent, []) := by
  cases exponent with
  | none => rfl
  | some e =>
    obtain ⟨negative, digits⟩ := e
    have hdigits : splitDigits (digits ++ []) = some (digits, []) :=
      splitDigits_append (h _ rfl) nofun
    rw [List.append_nil] at hdigits
    cases negative <;>
    · simp [exponentText, splitExponent, splitExponentSign, hdigits]

/-- A numeral is read from its text. -/
theorem ofText?_text {n : Numeral} (h : n.WellFormed) : ofText? n.text = some n := by
  have hwhole : splitWhole (n.whole ++ (fractionText n.fraction ++ exponentText n.exponent)) =
      some (n.whole, fractionText n.fraction ++ exponentText n.exponent) := by
    rw [splitWhole, splitDigits_append h.whole (stops_fractionText_append _ _),
      Option.filter_some, if_pos h.plain]
  rw [text, List.append_assoc, List.append_assoc, ofText?, splitSign_append _ h.whole]
  simp only [Option.bind_eq_bind, hwhole, splitFraction_append h.fraction,
    splitExponent_exponentText h.exponent, Option.bind_some, if_true]

/-! ### What a numeral denotes -/

/-- The decimal that a numeral denotes, with all its digits. -/
def denoted (n : Numeral) : Decimal :=
  let fraction := n.fraction.getD []
  ⟨Digits.value (n.whole ++ fraction), n.exponentValue - fraction.length⟩

theorem denoted_coefficient (n : Numeral) :
    n.denoted.coefficient = Digits.value (n.whole ++ n.fraction.getD []) :=
  rfl

theorem denoted_exponent (n : Numeral) :
    n.denoted.exponent = n.exponentValue - (n.fraction.getD []).length :=
  rfl

theorem exponentValue_none (negative : Bool) (whole : List Char) (fraction : Option (List Char)) :
    exponentValue ⟨negative, whole, fraction, none⟩ = 0 :=
  rfl

theorem isDigit_of_mem_significant {n : Numeral} (h : n.WellFormed) {c : Char}
    (hc : c ∈ n.significant) : c.isDigit = true := by
  have hc := (List.dropWhile_sublist _).subset hc
  rcases List.mem_append.mp hc with hc | hc
  · exact h.whole.isDigit c hc
  · have hc := Digits.mem_of_mem_dropFinalZeros hc
    cases hfraction : n.fraction with
    | none => simp [hfraction] at hc
    | some digits =>
      rw [hfraction, Option.getD_some] at hc
      exact (h.fraction digits hfraction).isDigit c hc

theorem head_significant_ne_zero {n : Numeral} {c : Char} (hc : c ∈ n.significant.head?) :
    c ≠ '0' := by
  have hnot := List.head?_dropWhile_not (· = '0') (n.whole ++ n.fractionDigits)
  rw [← significant, hc] at hnot
  simpa using hnot

/-- A numeral is rounded from what it denotes if that takes no more digits than are read one by
one. -/
theorem exists_denoted_eq_scale {n : Numeral} (h : n.WellFormed)
    (hfew : n.denoted.coefficient < 10 ^ digitLimit) : ∃ k, n.denoted = n.decimal.scale k := by
  obtain ⟨k, hk⟩ := Digits.exists_eq_dropFinalZeros_append (n.fraction.getD [])
  rw [← fractionDigits] at hk
  have hcoefficient : n.denoted.coefficient = Digits.value n.significant * 10 ^ k := by
    rw [denoted_coefficient, hk, ← List.append_assoc, Digits.value_append_replicate_zero, significant,
      Digits.value_dropWhile_zero]
  have hlength : n.significant.length ≤ digitLimit := by
    have hle : Digits.value n.significant ≤ n.denoted.coefficient := by
      rw [hcoefficient]
      exact Nat.le_mul_of_pos_right _ (Nat.pow_pos (by decide))
    exact Digits.length_le_of_value_lt (fun _ => isDigit_of_mem_significant h)
      (fun _ => head_significant_ne_zero) (Nat.lt_of_le_of_lt hle hfew)
  have hexponent : n.denoted.exponent = n.exponentValue - n.fractionDigits.length - k := by
    rw [denoted_exponent, hk, List.length_append, List.length_replicate]
    omega
  refine ⟨k, ?_⟩
  rw [decimal, if_pos hlength, Decimal.scale, ← hcoefficient, ← hexponent]

end Numeral

end DocQuery.Json
