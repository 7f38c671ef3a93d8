/-!
# Decimal digits

A natural number is written with the digits `'0'` to `'9'`, the most significant first and no
needless zero in front (`Digits.ofNat`); an integer takes a minus sign in front of the digits of
its absolute value when it is negative (`Digits.ofInt`).  `Digits.value` is the number that a run
of digits denotes, leading zeros allowed, so it undoes `Digits.ofNat` (`value_ofNat`).
-/

namespace DocQuery.Digits

/-- The decimal digits of `n`, most significant first; zero is written `0`. -/
def ofNat (n : Nat) : List Char :=
  Nat.toDigits 10 n

/-- The digits of the absolute value of `n`, after a minus sign when `n` is negative. -/
def ofInt (n : Int) : List Char :=
  if n < 0 then '-' :: ofNat n.natAbs else ofNat n.natAbs

/-- The number that a run of decimal digits denotes; the empty run denotes zero. -/
def value (digits : List Char) : Nat :=
  Nat.ofDigitChars 10 digits 0

/-- Some digits without the zeros at their end. -/
def dropFinalZeros (digits : List Char) : List Char :=
  (digits.reverse.dropWhile (· = '0')).reverse

@[simp] theorem value_ofNat (n : Nat) : value (ofNat n) = n := by
  simp [value, ofNat, Nat.ofDigitChars_toDigits]

end DocQuery.Digits
