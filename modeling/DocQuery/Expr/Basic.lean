import DocQuery.Selector.Read
import DocQuery.Selector.Write

/-!
# Expressions

An expression is evaluated on a document and gives a value (`Expr.evaluate`), or is written through
(`Expr.set`).  It selects a part of an array, or it stands for a computation that is known to fail:
this one fails with its diagnostic whenever it is evaluated, and nothing can be written through it.

Two expressions are equal when they are of one kind and have the same indices or the same
diagnostic.  The text of an expression is that of its selector, or the diagnostic.
-/

namespace DocQuery

/-- A query on a document. -/
inductive Expr where
  /-- The part of an array that a selector names. -/
  | select (selector : Selector)
  /-- A computation that is known to fail, with its diagnostic. -/
  | unevaluable (diagnostic : String)
deriving DecidableEq, Hashable

namespace Expr

/-! ### Kinds -/

inductive Kind where
  | select | unevaluable
deriving DecidableEq

def Kind.all : List Kind :=
  [select, unevaluable]

def Kind.name : Kind → String
  | select => "ArrayAccess"
  | unevaluable => "Unevaluable"

def kind : Expr → Kind
  | select _ => .select
  | unevaluable _ => .unevaluable

/-! ### Text -/

def text : Expr → String
  | select selector => selector.text
  | unevaluable diagnostic => diagnostic

/-- A buffer with the text of an expression behind what it held. -/
def render (buffer : String) (e : Expr) : String :=
  buffer ++ e.text

/-! ### Evaluation and writing -/

/-- The value of an expression on a document.  No setting of the context bears on it. -/
def evaluate (e : Expr) (document : Value) (_context : Context) : Result Value :=
  match e with
  | select selector => selector.read document
  | unevaluable diagnostic => .error (.unevaluable diagnostic)

def set (e : Expr) (document value : Value) (context : Context) : Outcome :=
  match e with
  | select selector => selector.write context document value
  | unevaluable _ => ⟨document, .error (.unsupportedSet e.text)⟩

end Expr

end DocQuery
