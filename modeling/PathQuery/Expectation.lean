import PathQuery.Query.PlanText
import PathQuery.Source

/-!
# Expected matches

A query is expected to select certain paths from a document: exactly these, one
by one, or these in any order.  Where order counts, a truth value in a path is
the same as the number it stands for.  Where order does not count, both lists
are compared by the sorted texts of their paths.
-/

set_option autoImplicit false

namespace PathQuery

def Key.display : Key → String
  | .name text => Text.quoted text
  | .index position => String.ofList (Number.intChars position)
  | .flag true => "True"
  | .flag false => "False"

namespace Path

def display : Path → String
  | [key] => "(" ++ key.display ++ ",)"
  | path => "(" ++ ", ".intercalate (path.map Key.display) ++ ")"

def displayAll (paths : List Path) : String :=
  "[" ++ ", ".intercalate (paths.map display) ++ "]"

end Path

namespace Expectation

inductive Failure
  | noPlan
  | differ (plan : Plan) (expected actual : List Path)

def Failure.message (query : String) : Failure → String
  | .noPlan => "query does not compile: " ++ Text.quoted query
  | .differ plan expected actual =>
    "JSONPath matches differ for " ++ Text.quoted query ++
      "\n  plan:     " ++ plan.render ++
      "\n  expected: " ++ Path.displayAll expected ++
      "\n  actual:   " ++ Path.displayAll actual

def sortedTexts (paths : List Path) : List String :=
  (paths.map Path.display).mergeSort fun a b => a ≤ b

def sameInOrder (paths others : List Path) : Bool :=
  paths.map (List.map Key.withoutFlag) = others.map (List.map Key.withoutFlag)

def agree (ordered : Bool) (expected actual : List Path) : Bool :=
  if ordered then sameInOrder actual expected else sortedTexts actual = sortedTexts expected

/-- Checks what a query selects; `none` where the expectation is met. -/
def check (query : String) (document : Json) (expected : List Path) (ordered : Bool) :
    Except CallError (Option Failure) :=
  withPlan (compile? query) fun plan =>
    match plan with
    | none => .ok (some .noPlan)
    | some plan =>
      (plan.select? document []).map fun actual =>
        if agree ordered expected actual then none else some (.differ plan expected actual)

end Expectation

end PathQuery
