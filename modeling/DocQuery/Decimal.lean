import DocQuery.Digits

/-!
# Decimals

A `Decimal` is a number in decimal notation without its sign: some digits, as one number, and the
power of ten that the last of them counts.  Many decimals are the same number, as zeros may be moved
between the two parts; `Decimal.digits` are the digits without the zeros at the end.
-/

namespace DocQuery

/-- The decimal `coefficient * 10 ^ exponent`. -/
structure Decimal where
  coefficient : Nat
  exponent : Int
deriving DecidableEq

namespace Decimal

/-- The significant digits, without the zeros at the end; a zero is the one digit `0`. -/
def digits (d : Decimal) : List Char :=
  match Digits.ofNat d.coefficient with
  | [] => []
  | first :: rest => first :: Digits.dropFinalZeros rest

/-- The power of ten that the first digit counts. -/
def leadingExponent (d : Decimal) : Int :=
  d.exponent + (Digits.ofNat d.coefficient).length - 1

end Decimal

end DocQuery
