import DocQuery.Selector.Basic
import DocQuery.Value.Basic

/-!
# Errors

What can go wrong when an expression is evaluated or written through, by cause (`EvalError`), the
one place that words each cause (`EvalError.message`), and a result that is a value or such an error
(`Result`).
-/

namespace DocQuery

/-- A value of a kind that an operation has no use for. -/
inductive TypeFault where
  /-- An element is asked of a value that is not an array. -/
  | notIndexable (kind : Value.Kind)
  /-- The elements of a value that is not an array are to be written over a range. -/
  | notSpreadable (kind : Value.Kind) (target : Selector)
deriving DecidableEq

/-- Why an expression could not be evaluated or written through. -/
inductive EvalError where
  | typeFault (fault : TypeFault)
  /-- A position, counted from the front, that an array of this size does not have. -/
  | outOfBounds (position : Int64) (size : Nat)
  /-- A computation that is known to fail, with its diagnostic. -/
  | unevaluable (diagnostic : String)
  /-- An expression, given by its text, that nothing can be written through. -/
  | unsupportedSet (expression : String)
deriving DecidableEq

def TypeFault.message : TypeFault → String
  | notIndexable kind => "Cannot index " ++ kind.name ++ " as an array"
  | notSpreadable kind target =>
    "Cannot spread " ++ kind.name ++ " over array range " ++ target.text

def EvalError.message : EvalError → String
  | typeFault fault => "Type error: " ++ fault.message
  | outOfBounds position size =>
    "Index " ++ String.ofList (Digits.ofInt position.toInt) ++ " out of bounds for array of size "
      ++ String.ofList (Digits.ofNat size)
  | unevaluable diagnostic => diagnostic
  | unsupportedSet expression => "Cannot set a value through expression " ++ expression

/-- What a computation gives, or the error that stopped it. -/
abbrev Result (α : Type) := Except EvalError α

/-- Whether two results are equal: two values that are equal, or two errors that are the same. -/
def Result.equal {α : Type} [BEq α] : Result α → Result α → Bool
  | .ok x, .ok y => x == y
  | .error e, .error f => e = f
  | _, _ => false

/-- A document after an attempt to change it, with how the attempt went.  Where it failed the
document holds whatever was written before the failure. -/
structure Outcome where
  document : Value
  /-- Whether everything was written, or the error that stopped it. -/
  result : Result Unit

end DocQuery
