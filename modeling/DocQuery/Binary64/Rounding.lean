import DocQuery.Decimal
import DocQuery.Binary64.Basic

/-!
# Rounding to binary64

`Binary64.ofQuotient` is the binary64 number nearest to a quotient of naturals with a sign, a tie
going to the even neighbour; what is too large for a finite number becomes an infinity, and what is
nearer to zero than to the least unit becomes the zero of its sign.  `Binary64.ofDecimal` is the
same for a decimal and `Binary64.ofInt` for an integer.

The quotient is rounded once, in exact arithmetic.  Measured in units it has a binary length, and
this fixes the step between neighbours where it lies; dividing by the step and rounding gives the
significand.  Adding the significand to the binade, and not placing it beside it, lets a
significand that rounds up to the next power of two carry into the next binade by itself.
-/

namespace DocQuery.Binary64

/-- The natural number nearest to `num / den`; of two equally near ones, the even one. -/
def roundDiv (num den : Nat) : Nat :=
  let quotient := num / den
  let twiceRest := 2 * (num % den)
  if twiceRest < den || (twiceRest == den && quotient % 2 == 0) then quotient else quotient + 1

/-- The magnitude nearest to `num / den`, of two equally near ones the even one, and `infinity` for
what rounds to no finite one. -/
def nearest (num den : Nat) : Nat :=
  let scaled := num * unitsPerOne
  let binade := (scaled / den).log2 - 52
  min infinity (binade * binadeSize + roundDiv scaled (den <<< binade))

def ofQuotient (negative : Bool) (num den : Nat) : Binary64 :=
  ofMagnitude negative (nearest num den)

def ofInt (n : Int) : Binary64 :=
  ofQuotient (n < 0) n.natAbs 1

/-- The number nearest to a decimal, with the given sign.

With `k` digits in the coefficient the value lies from `10 ^ (k - 1 + exponent)` up to
`10 ^ (k + exponent)`.  So it can be told to be below half a unit, or beyond every finite number,
without computing a power of ten that may be out of all proportion. -/
def ofDecimal (negative : Bool) (d : Decimal) : Binary64 :=
  let size := (Digits.ofNat d.coefficient).length + d.exponent
  if d.coefficient = 0 || size < -330 then ofMagnitude negative 0
  else if 310 < size then ofMagnitude negative infinity
  else if d.exponent < 0 then ofQuotient negative d.coefficient (Nat.pow 10 d.exponent.natAbs)
  else ofQuotient negative (d.coefficient * Nat.pow 10 d.exponent.toNat) 1

end DocQuery.Binary64
