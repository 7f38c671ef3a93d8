import DocQuery.Binary64.Rounding

/-!
# The shortest decimal of a binary64 number

`Binary64.shortest` writes a finite magnitude with as few significant decimal digits as
read back to the same magnitude, and of several such decimals takes the one nearest to the exact
value, on a tie the one with an even last digit.

With `n` significant digits the candidates are the two neighbours of the value on a decimal grid:
when any point of a grid reads back, one of these two does.  Grids are tried from the coarsest on,
up to the seventeen digits that always suffice; what reads back is asked of the reader itself.
-/

namespace DocQuery

namespace Decimal

/-- The magnitude of the binary64 number nearest to a decimal. -/
def toMagnitude (d : Decimal) : Nat :=
  (Binary64.ofDecimal false d).magnitude

end Decimal

namespace Binary64

/-- The number `k` with `10 ^ (k - 1) ≤ v < 10 ^ k` for the value `v` of a positive magnitude: the
place of the point among the digits of `v`, counted from the first. -/
def pointPlace (magnitude : Nat) : Int :=
  -- every positive value is at least `10 ^ -324`
  (Digits.ofNat (units magnitude * Nat.pow 10 324 / unitsPerOne)).length - 324

/-- The quotient and the divisor that place the value of a magnitude on the grid of the multiples of
`10 ^ exponent`. -/
def onGrid (magnitude : Nat) (exponent : Int) : Nat × Nat :=
  if exponent < 0 then (units magnitude * Nat.pow 10 exponent.natAbs, unitsPerOne)
  else (units magnitude, unitsPerOne * Nat.pow 10 exponent.toNat)

/-- The neighbours of a value on a grid, the nearer one first and on a tie the even one. -/
def neighbours (magnitude : Nat) (exponent : Int) : List Decimal :=
  let (num, den) := onGrid magnitude exponent
  let below := num / den
  let above := below + 1
  if roundDiv num den = below then [⟨below, exponent⟩, ⟨above, exponent⟩]
  else [⟨above, exponent⟩, ⟨below, exponent⟩]

/-- The nearest decimal of `digits` significant digits that reads back to the magnitude. -/
def withDigits? (magnitude digits : Nat) : Option Decimal :=
  (neighbours magnitude (pointPlace magnitude - digits)).find? (·.toMagnitude = magnitude)

/-- The value of a magnitude, digit for digit: a unit is `5 ^ 1074` times `10 ^ -1074`. -/
def exactDecimal (magnitude : Nat) : Decimal :=
  ⟨units magnitude * Nat.pow 5 1074, -1074⟩

/-- The shortest decimal that reads back to a magnitude, and of these the nearest. -/
def shortest (magnitude : Nat) : Decimal :=
  if magnitude = 0 then ⟨0, 0⟩
  else ((List.range' 1 17).findSome? (withDigits? magnitude)).getD (exactDecimal magnitude)

end Binary64

end DocQuery
