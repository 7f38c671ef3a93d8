import DocQuery.Expr.Basic

/-!
# Hints

What can be known of an expression by its kind alone: the values that it can be evaluated on, its
`Scope`, and whether it is to be evaluated once for each element when it follows an expression that
gives an array.  Hints are declarations; nothing here acts on them.
-/

namespace DocQuery

/-- The values that an expression can be evaluated on. -/
inductive Scope where
  | any | array | object | scalar
deriving DecidableEq

namespace Scope

def all : List Scope :=
  [any, array, object, scalar]

def name : Scope → String
  | any => "ANY"
  | array => "ARRAY"
  | object => "OBJECT"
  | scalar => "SCALAR"

def accepts : Scope → Value → Bool
  | any, _ => true
  | array, v => v.isArray
  | object, v => v.isObject
  | scalar, v => v.isScalar

end Scope

/-- What is known of an expression by its kind. -/
structure Hints where
  /-- The values that it can be evaluated on. -/
  scope : Scope := .any
  /-- Whether it is evaluated once for each element of an array that comes before it. -/
  iterating : Bool := false
deriving DecidableEq

instance : Inhabited Hints := ⟨{}⟩

namespace Expr

def Kind.hints : Kind → Hints
  | .select => ⟨.array, true⟩
  | .unevaluable => default

def hints (e : Expr) : Hints :=
  e.kind.hints

end Expr

end DocQuery
