import DocQuery.Binary64.Shortest
import DocQuery.Json.Numeral

/-!
# JSON numbers

A JSON number is a natural number of 64 bits, a negative integer of 64 bits or a finite binary64
number (`Json.Number`).  A numeral that is an integer by its form and fits one of the first two is
read as such, and every other one as the nearest binary64 number (`Number.ofNumeral?`).  So is `-0`,
as negative zero is not an integer.

`Number.numeral` says how each is written.  A binary64 number has the shortest digits that read back
and keeps a point or an exponent, which tells it from an integer.  Where its first digit counts
`10 ^ e` it is written out for `e` from `-5` to `15`, and with an exponent beyond.
-/

namespace DocQuery.Json

/-- A number. -/
inductive Number where
  | natural (n : UInt64)
  | negative (n : Int64) (isNegative : n < 0)
  /-- A binary64 number that is neither infinite nor a NaN. -/
  | real (x : Binary64) (isFinite : x.isFinite)
deriving DecidableEq

namespace Number

/-! ### Integers and binary64 numbers -/

def ofInt64 (n : Int64) : Number :=
  if h : n < 0 then negative n h else natural n.toUInt64

def ofBinary64? (x : Binary64) : Option Number :=
  if h : x.isFinite then some (real x h) else none

def toInt64? : Number → Option Int64
  | natural n => if n.toNat < 0x8000000000000000 then some n.toInt64 else none
  | negative n _ => some n
  | real _ _ => none

/-- The nearest binary64 number, which every number has (`Value.exists_toBinary64?`). -/
def toBinary64? : Number → Option Binary64
  | natural n => some (Binary64.ofInt n.toNat)
  | negative n _ => some (Binary64.ofInt n.toInt)
  | real x _ => some x

/-! ### Reading -/

/-- The binary64 number nearest to what a numeral denotes, if it is finite. -/
def realOfNumeral? (n : Numeral) : Option Number :=
  ofBinary64? (Binary64.ofDecimal n.negative n.decimal)

def ofNumeral? (n : Numeral) : Option Number :=
  if n.isInteger then
    if n.negative then
      if h : n.wholeValue ≤ 0x8000000000000000 ∧ Int64.ofInt (-n.wholeValue) < 0 then
        some (negative _ h.2)
      else realOfNumeral? n
    else if n.wholeValue < UInt64.size then some (natural (UInt64.ofNat n.wholeValue))
    else realOfNumeral? n
  else realOfNumeral? n

/-! ### Writing -/

/-- The least exponent of the first digit of a number that is written out. -/
def leastWrittenOut : Int :=
  -5

/-- The greatest exponent of the first digit of a number that is written out. -/
def greatestWrittenOut : Int :=
  15

/-- Some digits, and one zero where there are none. -/
def orZero (digits : List Char) : List Char :=
  if digits = [] then ['0'] else digits

/-- A number written out, with the given digits of which the first counts `10 ^ exponent`. -/
def writtenOut (negative : Bool) (digits : List Char) (exponent : Int) : Numeral :=
  if exponent < 0 then
    ⟨negative, ['0'], some (List.replicate (exponent.natAbs - 1) '0' ++ digits), none⟩
  else
    let places := exponent.toNat + 1
    ⟨negative, digits.take places ++ List.replicate (places - digits.length) '0',
      some (orZero (digits.drop places)), none⟩

/-- A number with an exponent, with the given digits of which the first counts `10 ^ exponent`. -/
def withExponent (negative : Bool) (digits : List Char) (exponent : Int) : Numeral :=
  let fraction := digits.drop 1
  ⟨negative, digits.take 1, if fraction = [] then none else some fraction,
    some (exponent < 0, Digits.ofNat exponent.natAbs)⟩

def realNumeral (x : Binary64) : Numeral :=
  let decimal := Binary64.shortest x.magnitude
  let exponent := decimal.leadingExponent
  if leastWrittenOut ≤ exponent ∧ exponent ≤ greatestWrittenOut then
    writtenOut x.isNegative decimal.digits exponent
  else withExponent x.isNegative decimal.digits exponent

def numeral : Number → Numeral
  | natural n => ⟨false, Digits.ofNat n.toNat, none, none⟩
  | negative n _ => ⟨true, Digits.ofNat n.toInt.natAbs, none, none⟩
  | real x _ => realNumeral x

end Number

end DocQuery.Json
