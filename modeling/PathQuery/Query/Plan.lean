import PathQuery.Query.Operator
import PathQuery.Text.Quoted

/-!
# Plans

A plan is what a query means: steps that turn one list of paths into the next.
A root or current step starts anew from one path; a children or descendants
step goes down, either along the keys that a selector picks, where a comparison
may be asked of the value found, or through a filter, a plan of its own that
has to find something below a node for the node to stay.

Plans are compiled from text or put together from parts.  The functions
`Comparison.make`, `Step.make` and `Plan.make` put parts together and refuse
those that make no sense.
-/

set_option autoImplicit false

namespace PathQuery

inductive Movement
  | root
  | current
  | children
  | descendants
deriving DecidableEq

namespace Movement

def isAnchor : Movement → Bool
  | .root => true
  | .current => true
  | _ => false

def name : Movement → String
  | .root => "ROOT"
  | .current => "CURRENT"
  | .children => "CHILDREN"
  | .descendants => "DESCENDANTS"

end Movement

/-- What picks the keys of a step.  A negative index counts from the end. -/
inductive Selector (σ : Type := String)
  | name (text : σ)
  | names (texts : List σ)
  | index (position : Int)
  | wildcard
deriving DecidableEq

mutual

/-- A negated step keeps what it would drop and drops what it would keep. -/
inductive Step (σ : Type := String)
  | keyed (movement : Movement) (selector : Option (Selector σ))
      (comparison : Option (Comparison σ)) (negated : Bool)
  | filter (movement : Movement) (plan : Plan σ) (negated : Bool)

/-- The steps, the first an anchor, and the offset in the query where they end. -/
inductive Plan (σ : Type := String)
  | mk (steps : List (Step σ)) (stop : Int)

end

variable {σ : Type}

namespace Step

def anchor (movement : Movement) : Step σ := .keyed movement none none false

def movement : Step σ → Movement
  | .keyed movement _ _ _ => movement
  | .filter movement _ _ => movement

def negated : Step σ → Bool
  | .keyed _ _ _ negated => negated
  | .filter _ _ negated => negated

def negate : Step σ → Step σ
  | .keyed movement selector comparison _ => .keyed movement selector comparison true
  | .filter movement plan _ => .filter movement plan true

end Step

namespace Plan

def steps : Plan σ → List (Step σ)
  | .mk steps _ => steps

def stop : Plan σ → Int
  | .mk _ stop => stop

mutual

def innerStops : Plan σ → List Int
  | .mk steps _ => stepsInnerStops steps

def stepsInnerStops : List (Step σ) → List Int
  | [] => []
  | step :: rest => stepInnerStops step ++ stepsInnerStops rest

def stepInnerStops : Step σ → List Int
  | .keyed .. => []
  | .filter _ plan _ => plan.stop :: innerStops plan

end

end Plan

/-! ## Putting plans together -/

inductive PlanError
  | keyAndPlan
  | planAndComparison
  | keyIsFlag (value : Bool)
  | unknownOperator (symbol : String)
  | tooFewSteps (count : Nat)
  | noAnchor (movement : Movement)
deriving DecidableEq

namespace PlanError

def message : PlanError → String
  | .keyAndPlan => "a step selects by key or by nested plan, not both"
  | .planAndComparison => "a nested-plan step cannot carry a comparison"
  | .keyIsFlag value =>
    "key must be str, int, WILDCARD or tuple, got " ++ if value then "True" else "False"
  | .unknownOperator symbol =>
    "op must be one of (" ++
      ", ".intercalate (Operator.all.map fun op => Text.quoted op.symbol) ++
      "), got " ++ Text.quoted symbol
  | .tooFewSteps count =>
    "a plan needs an anchor and at least one accessor, got " ++ toString count ++ " step(s)"
  | .noAnchor movement => "first step must be ROOT or CURRENT, got " ++ movement.name

end PlanError

inductive KeyPart (σ : Type := String)
  | selector (selector : Selector σ)
  | flag (value : Bool)

def Comparison.make (symbol : String) (operand : Json σ) : Except PlanError (Comparison σ) :=
  match Operator.ofSymbol? symbol with
  | some operator => .ok ⟨operator, operand⟩
  | none => .error (.unknownOperator symbol)

def Step.make (movement : Movement) (key : Option (KeyPart σ)) (plan : Option (Plan σ))
    (comparison : Option (Comparison σ)) (negated : Bool) : Except PlanError (Step σ) :=
  match plan, key, comparison with
  | some _, some _, _ => .error .keyAndPlan
  | some _, none, some _ => .error .planAndComparison
  | some plan, none, none => .ok (.filter movement plan negated)
  | none, some (.flag value), _ => .error (.keyIsFlag value)
  | none, some (.selector selector), _ => .ok (.keyed movement (some selector) comparison negated)
  | none, none, _ => .ok (.keyed movement none comparison negated)

def Plan.make (steps : List (Step σ)) (stop : Int) : Except PlanError (Plan σ) :=
  match steps with
  | first :: _ :: _ =>
    if first.movement.isAnchor then .ok (.mk steps stop) else .error (.noAnchor first.movement)
  | _ => .error (.tooFewSteps steps.length)

end PathQuery
