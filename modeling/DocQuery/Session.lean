import DocQuery.Expr.Basic

/-!
# Sessions and pipelines

A session is one document under a sequence of steps, each of which reads it, changes it or replaces
it, and gives a reply (`Step.run`, `Session.run`).  A step that fails leaves behind what it had
written, and the session goes on.

A pipeline is a sequence of expressions each of which is evaluated on what the one before gave; it
ends at the first error (`Pipeline.run`).
-/

namespace DocQuery

/-! ### Steps -/

/-- Something to do with the document of a session. -/
inductive Step where
  | evaluate (expr : Expr) (context : Context)
  /-- Evaluate an expression and go on with its value as the document. -/
  | adopt (expr : Expr) (context : Context)
  | set (expr : Expr) (value : Value) (context : Context)
  /-- Write the value of one expression through another. -/
  | copy (source target : Expr) (context : Context)
  | arraySet (position : Int64) (value : Value)
  | arrayGet (position : Int64)
  | arrayLen

/-- What a step answers. -/
inductive Reply where
  | value (result : Result Value)
  | written (result : Result Unit)
  | element (result : Result (Option Value))
  | length (result : Result Nat)

def Outcome.toStep (outcome : Outcome) : Value × Reply :=
  (outcome.document, .written outcome.result)

/-- Takes one step: the document afterwards, and the reply. -/
def Step.run (document : Value) : Step → Value × Reply
  | evaluate expr context => (document, .value (expr.evaluate document context))
  | adopt expr context =>
    match expr.evaluate document context with
    | .ok v => (v, .value (.ok v))
    | .error e => (document, .value (.error e))
  | set expr value context => (expr.set document value context).toStep
  | copy source target context =>
    match source.evaluate document context with
    | .ok v => (target.set document v context).toStep
    | .error e => (document, .written (.error e))
  | arraySet position value => (document.arraySet position value).toStep
  | arrayGet position => (document, .element (document.arrayGet position))
  | arrayLen => (document, .length document.arrayLen)

/-- Takes some steps one after the other: after each the document and the reply. -/
def Session.run (document : Value) : List Step → List (Value × Reply)
  | [] => []
  | step :: rest =>
    let (next, reply) := step.run document
    (next, reply) :: Session.run next rest

/-! ### Pipelines -/

/-- Evaluates each expression on the value of the one before it, up to the first that fails. -/
def Pipeline.run (context : Context) (document : Value) : List Expr → List (Result Value)
  | [] => []
  | expr :: rest =>
    match expr.evaluate document context with
    | .ok v => .ok v :: Pipeline.run context v rest
    | .error e => [.error e]

end DocQuery
