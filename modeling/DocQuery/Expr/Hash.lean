import DocQuery.Expr.Basic

/-!
# The structural hash

A hash of an expression that is the same on every machine and in every run.  It folds the fields of
the expression, from a seed that its kind gives, as the polynomial `hash = 47 * hash + field` over
words of 64 bits: the two indices of a selector, or the bytes of a diagnostic in UTF-8.
-/

namespace DocQuery.Expr

/-- Where the hash of an expression of some kind starts: the first three letters of its name. -/
def Kind.seed : Kind → UInt64
  | .select => 0x417272
  | .unevaluable => 0x556E65

/-- A hash with one more field folded in. -/
def foldField (hash field : UInt64) : UInt64 :=
  47 * hash + field

def fields : Expr → List UInt64
  | select selector => [selector.start.toUInt64, selector.stop.toUInt64]
  | unevaluable diagnostic => diagnostic.toUTF8.data.toList.map (·.toUInt64)

def structuralHash (e : Expr) : UInt64 :=
  e.fields.foldl foldField e.kind.seed

end DocQuery.Expr
