/-!
# Binary64 numbers

A binary64 number is its 64-bit word.  The low 63 bits are its `magnitude`; they order the
non-negative numbers, up to `infinity`, and a larger magnitude is a NaN.  A finite magnitude stands
for a whole number of *units*, where a unit is `2 ^ -1074`, the least positive number
(`Binary64.units`): so everything about the value of a number can be said in `Nat`.

Two comparisons are kept apart.  `=` tells two words apart.  `Binary64.numEq` compares the numbers:
a NaN equals nothing, itself included, and the two zeros are equal.
-/

namespace DocQuery

/-- A binary64 number, given by its word. -/
structure Binary64 where
  /-- A sign bit, eleven exponent bits and fifty-two fraction bits, from the top. -/
  bits : UInt64
deriving DecidableEq

namespace Binary64

/-! ### The parts of a word -/

/-- What the sign bit counts. -/
def signBit : Nat :=
  1 <<< 63

/-- How many magnitudes have the same exponent bits. -/
def binadeSize : Nat :=
  1 <<< 52

/-- The magnitude of the infinities: the least one that is not finite. -/
def infinity : Nat :=
  2047 * binadeSize

/-- The word without its sign bit. -/
def magnitude (x : Binary64) : Nat :=
  x.bits.toNat % signBit

/-- The sign bit: set for the negative numbers, for `-0.0` too. -/
def isNegative (x : Binary64) : Bool :=
  signBit ≤ x.bits.toNat

def ofMagnitude (negative : Bool) (magnitude : Nat) : Binary64 :=
  ⟨UInt64.ofNat (if negative then signBit + magnitude else magnitude)⟩

/-- Whether the word is one of the many that stand for no number. -/
def isNaN (x : Binary64) : Bool :=
  infinity < x.magnitude

def isFinite (x : Binary64) : Bool :=
  x.magnitude < infinity

/-- The NaN with a clear sign bit and only the top fraction bit set. -/
def nan : Binary64 :=
  ofMagnitude false (infinity + binadeSize / 2)

/-! ### The value of a magnitude -/

/-- The value of a finite magnitude, in units.  Up to twice the least normal magnitude the value is
the magnitude itself; each binade above doubles the step between neighbours. -/
def units (magnitude : Nat) : Nat :=
  let binade := magnitude / binadeSize - 1
  (magnitude - binade * binadeSize) <<< binade

def unitsPerOne : Nat :=
  1 <<< 1074

/-! ### Comparison as numbers -/

def numEq (x y : Binary64) : Bool :=
  !x.isNaN && (x == y || (x.magnitude == 0 && y.magnitude == 0))

end Binary64

end DocQuery
