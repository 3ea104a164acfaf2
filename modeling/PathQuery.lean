import PathQuery.Engine.Session
import PathQuery.Expectation
import PathQuery.Proofs.Json.Preorder
import PathQuery.Proofs.Json.Deletion
import PathQuery.Proofs.Query.Descent
import PathQuery.Proofs.Query.AncestorsFirst
import PathQuery.Proofs.Query.Grammar
import PathQuery.Proofs.Query.QuotedKey
import PathQuery.Proofs.Query.Token
import PathQuery.Proofs.Query.Derivation
import PathQuery.Proofs.Query.Compile
import PathQuery.Proofs.Query.Nested
import PathQuery.Proofs.Query.Subtree
import PathQuery.Proofs.Json.Thinning
import PathQuery.Proofs.Prune.Exhaustive
import PathQuery.Proofs.Query.Placement
import PathQuery.Proofs.Query.Concat
import PathQuery.Proofs.Query.Reach
import PathQuery.Proofs.Number.Rounding
import PathQuery.Proofs.Number.Numeral
import PathQuery.Proofs.Json.Escape
import PathQuery.Proofs.Json.Reading
import PathQuery.Proofs.Json.RoundTrip
import PathQuery.Proofs.Text.Lines
import PathQuery.Proofs.Prune.Payload
import PathQuery.Proofs.Engine.Cache
import PathQuery.Proofs.Engine.Session
import PathQuery.Proofs.Engine.Recency
import PathQuery.Proofs.Query.Filter
import PathQuery.Proofs.Query.Front
import PathQuery.Proofs.Query.Negation
import PathQuery.Proofs.Query.Subquery
import PathQuery.Proofs.Query.Keyed
import PathQuery.Proofs.Query.Partition
import PathQuery.Proofs.Json.Enumeration
import PathQuery.Proofs.Prune.Counting
import PathQuery.Proofs.Query.Overlong
import PathQuery.Proofs.Query.Failure
import PathQuery.Proofs.Query.Continuation
import PathQuery.Proofs.Query.Elements
import PathQuery.Proofs.Query.Distinct
import PathQuery.Proofs.Query.Offsets
import PathQuery.Proofs.Number.Value
import PathQuery.Proofs.Number.Shortest
import PathQuery.Proofs.Query.Comparison
import PathQuery.Proofs.Number.Denotation
import PathQuery.Proofs.Text.Delimited
import PathQuery.Proofs.Text.Quoted
import PathQuery.Proofs.Expectation
import PathQuery.Proofs.Json.Unambiguous
import PathQuery.Proofs.Query.PlanText
