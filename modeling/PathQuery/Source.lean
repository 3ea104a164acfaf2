import PathQuery.Prune.Payload
import PathQuery.Query.Compile

/-!
# Queries as they are handed in

A query is handed in as text, or as a plan that has been made before; there may
also be no plan.  Text is compiled anew for every call, and a malformed text
selects nothing.
-/

set_option autoImplicit false

namespace PathQuery

inductive CallError
  | overlongIndex (e : OverlongIndex)
  | overlongNumber (e : OverlongNumber)
deriving DecidableEq

def CallError.message : CallError → String
  | .overlongIndex e => e.message
  | .overlongNumber e => e.message

inductive Source
  | text (query : String)
  | compiled (plan : Option Plan)

def withPlan {α : Type} (plan : Except OverlongIndex (Option Plan))
    (answer : Option Plan → Except OverlongNumber α) : Except CallError α := do
  let plan ← plan.mapError .overlongIndex
  (answer plan).mapError .overlongNumber

namespace Source

def plan? : Source → Except OverlongIndex (Option Plan)
  | .text query => compile? query
  | .compiled plan => .ok plan

def find (source : Source) (document : Json) : Except CallError (List Path) :=
  withPlan source.plan? fun plan => select? plan document []

def matchesIn (source : Source) (document : Json) : Except CallError Bool :=
  (source.find document).map fun paths => !paths.isEmpty

def prune (source : Source) (document : Json) : Except CallError (Json × Nat) :=
  withPlan source.plan? fun plan => prune? plan document

def pruneLines (source : Source) (settings : Settings) (text : String) :
    Except CallError Outcome :=
  withPlan source.plan? fun plan => pruneLines? settings plan text

end Source

end PathQuery
