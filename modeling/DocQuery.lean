import DocQuery.Digits
import DocQuery.Binary64.Shortest
import DocQuery.Value.Equality
import DocQuery.Expr.Hash
import DocQuery.Expr.Hints
import DocQuery.Expr.Distinct
import DocQuery.Session
import DocQuery.Value.Json
import DocQuery.Proofs.Expr.Idempotence
import DocQuery.Proofs.Expr.Text
import DocQuery.Proofs.Session.Provenance
import DocQuery.Proofs.Selector.Overlap
import DocQuery.Proofs.Selector.Lens
import DocQuery.Proofs.Expr.Atomicity
import DocQuery.Proofs.Fields
import DocQuery.Proofs.Parts
import DocQuery.Proofs.Binary64.Rounding
import DocQuery.Proofs.Value.Json
import DocQuery.Proofs.Decimal
import DocQuery.Proofs.Json.Tree
import DocQuery.Proofs.Binary64.Decimal
import DocQuery.Proofs.Binary64.Shortest
import DocQuery.Proofs.Json.Numeral
import DocQuery.Proofs.Json.Number
import DocQuery.Proofs.Json.Token
import DocQuery.Proofs.Json.Text
import DocQuery.Proofs.Value.Text
import DocQuery.Proofs.Value.Reordered
import DocQuery.Proofs.Selector.Presence
import DocQuery.Proofs.Selector.Contents
import DocQuery.Proofs.Selector.Slice
import DocQuery.Proofs.Selector.Effect
import DocQuery.Proofs.Expr.Congruence
import DocQuery.Proofs.Selector.Fusion
import DocQuery.Proofs.Selector.Independence
import DocQuery.Proofs.Selector.Direction
import DocQuery.Proofs.Selector.Whole
import DocQuery.Proofs.Value.PartialEquivalence
import DocQuery.Proofs.Expr.Hash
import DocQuery.Proofs.Selector.Notation
import DocQuery.Proofs.Walk.Positions
import DocQuery.Proofs.Selector.Bounds
import DocQuery.Proofs.Expr.Scope
