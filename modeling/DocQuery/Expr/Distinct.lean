import DocQuery.Expr.Basic

/-!
# Distinct expressions

Equal expressions are interchangeable, so of a list of them it is enough to keep the first of each:
`Expr.firstPlaces` says for each expression where that is, and `Expr.distinct` which ones are left.
-/

namespace DocQuery.Expr

/-- For each expression of a list the place of the first one that is equal to it. -/
def firstPlaces (exprs : List Expr) : List Nat :=
  exprs.map (exprs.idxOf ·)

/-- The expressions of a list, each one once. -/
def distinct (exprs : List Expr) : List Expr :=
  exprs.eraseDups

end DocQuery.Expr
