import DocQuery.Decimal

/-!
# Numerals

A number in JSON text is a `Numeral`: a sign, a whole part without needless zeros in front, and
perhaps a fraction and an exponent.  `Numeral.text` writes one and `Numeral.ofText?` reads one; a
text is a numeral only as a whole.  An exponent is written with `e` and always with its sign, and
read with `E` and without a sign as well.

`Numeral.decimal` is the decimal that a numeral is rounded from; of a numeral with very many digits
it keeps only as many as bear on the rounding.
-/

namespace DocQuery.Json

/-- The parts of a number in JSON text. -/
structure Numeral where
  /-- Whether a minus sign stands in front. -/
  negative : Bool
  /-- The digits before the point. -/
  whole : List Char
  /-- The digits behind the point, if there is one. -/
  fraction : Option (List Char)
  /-- The exponent, if there is one: whether it is negative, and its digits. -/
  exponent : Option (Bool × List Char)
deriving DecidableEq

namespace Numeral

/-! ### Writing -/

def fractionText : Option (List Char) → List Char
  | none => []
  | some digits => '.' :: digits

def exponentText : Option (Bool × List Char) → List Char
  | none => []
  | some (negative, digits) => 'e' :: (if negative then '-' else '+') :: digits

def text (n : Numeral) : List Char :=
  (if n.negative then ['-'] else []) ++ n.whole ++ fractionText n.fraction ++
    exponentText n.exponent

/-! ### Reading -/

def splitSign : List Char → Bool × List Char
  | '-' :: rest => (true, rest)
  | chars => (false, chars)

/-- Takes one or more digits off the front. -/
def splitDigits (chars : List Char) : Option (List Char × List Char) :=
  match chars.takeWhile Char.isDigit with
  | [] => none
  | digits => some (digits, chars.dropWhile Char.isDigit)

/-- Whether digits have no needless zero in front. -/
def isPlain : List Char → Bool
  | '0' :: _ :: _ => false
  | _ => true

def splitWhole (chars : List Char) : Option (List Char × List Char) :=
  (splitDigits chars).filter fun (digits, _) => isPlain digits

def splitFraction : List Char → Option (Option (List Char) × List Char)
  | '.' :: rest => (splitDigits rest).map fun (digits, rest) => (some digits, rest)
  | chars => some (none, chars)

/-- Takes the sign of an exponent off the front, which may be missing. -/
def splitExponentSign : List Char → Bool × List Char
  | '-' :: rest => (true, rest)
  | '+' :: rest => (false, rest)
  | chars => (false, chars)

def splitExponent (chars : List Char) : Option (Option (Bool × List Char) × List Char) :=
  match chars with
  | [] => some (none, [])
  | c :: rest =>
    if c = 'e' ∨ c = 'E' then
      let (negative, rest) := splitExponentSign rest
      (splitDigits rest).map fun (digits, rest) => (some (negative, digits), rest)
    else some (none, chars)

/-- The numeral that a whole text is. -/
def ofText? (chars : List Char) : Option Numeral := do
  let (negative, chars) := splitSign chars
  let (whole, chars) ← splitWhole chars
  let (fraction, chars) ← splitFraction chars
  let (exponent, chars) ← splitExponent chars
  if chars = [] then some ⟨negative, whole, fraction, exponent⟩ else none

/-! ### Value -/

/-- Whether a numeral is an integer by its form: it has neither a fraction nor an exponent. -/
def isInteger (n : Numeral) : Bool :=
  n.fraction.isNone && n.exponent.isNone

def wholeValue (n : Numeral) : Nat :=
  Digits.value n.whole

/-- The exponent as an integer; a numeral without one has the exponent zero. -/
def exponentValue (n : Numeral) : Int :=
  match n.exponent with
  | none => 0
  | some (negative, digits) => if negative then -Digits.value digits else Digits.value digits

/-- The digits behind the point, without the zeros at their end. -/
def fractionDigits (n : Numeral) : List Char :=
  Digits.dropFinalZeros (n.fraction.getD [])

/-- The digits of the whole part and the fraction, from the first that is not zero. -/
def significant (n : Numeral) : List Char :=
  (n.whole ++ n.fractionDigits).dropWhile (· = '0')

/-- How many significant digits are read one by one.  No number that lies halfway between two
neighbouring binary64 numbers has more. -/
def digitLimit : Nat :=
  768

/-- The decimal that a numeral is rounded from.

Significant digits beyond the limit are not told apart: a single `1` in their place says that there
is something more, which is all that rounding can depend on.  Only the zeros at the end of the
fraction are no digits.  A whole part that goes on with zeros beyond the limit is therefore taken
for slightly more than it is, and where it lies halfway between two neighbours, for the upper. -/
def decimal (n : Numeral) : Decimal :=
  let digits := n.significant
  let exponent := n.exponentValue - n.fractionDigits.length
  if digits.length ≤ digitLimit then ⟨Digits.value digits, exponent⟩
  else
    ⟨Digits.value (digits.take digitLimit ++ ['1']), exponent + digits.length - (digitLimit + 1)⟩

end Numeral

end DocQuery.Json
