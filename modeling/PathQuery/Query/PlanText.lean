import PathQuery.Query.Plan

/-!
# The text of a plan

A plan is shown as JSON in ASCII: an object with its steps and its end.  A step
shows its movement, and then what it has: key, inner steps, operator with its
operand, and `true` where it is negated.  An inner plan shows only its steps.

Plans may hold strings of any type that has an ASCII text, such as rows of code
points with halves of surrogate pairs among them.
-/

set_option autoImplicit false

namespace PathQuery

class Spelling (σ : Type) where
  ofString : String → σ
  asciiText : σ → List Char

instance : Spelling String := ⟨id, Json.Escape.stringText true⟩

abbrev CodePoints := List (Fin 0x110000)

instance : Spelling CodePoints where
  ofString text := text.toList.map fun c => Fin.ofNat 0x110000 c.toNat
  asciiText := Json.Escape.pointsText

variable {σ : Type} [Spelling σ]

open Spelling (ofString)

def Selector.toJson : Selector σ → Json σ
  | .name text => .str text
  | .names texts => .arr (texts.map .str)
  | .index position => .num (.int position)
  | .wildcard => .str (ofString "*")

namespace Plan

def keyMembers (selector : Option (Selector σ)) : List (σ × Json σ) :=
  match selector with
  | some selector => [(ofString "k", selector.toJson)]
  | none => []

def comparisonMembers (comparison : Option (Comparison σ)) : List (σ × Json σ) :=
  match comparison with
  | some comparison =>
    [(ofString "op", .str (ofString comparison.operator.symbol)),
      (ofString "rval", comparison.operand)]
  | none => []

def negationMembers (negated : Bool) : List (σ × Json σ) :=
  if negated then [(ofString "not", .bool true)] else []

mutual

def stepJson : Step σ → Json σ
  | .keyed movement selector comparison negated =>
    .obj ((ofString "mv", .str (ofString movement.name)) ::
      (keyMembers selector ++ comparisonMembers comparison ++ negationMembers negated))
  | .filter movement plan negated =>
    .obj ((ofString "mv", .str (ofString movement.name)) ::
      (ofString "steps", .arr (innerJson plan)) :: negationMembers negated)

def innerJson : Plan σ → List (Json σ)
  | .mk steps _ => stepsJson steps

def stepsJson : List (Step σ) → List (Json σ)
  | [] => []
  | step :: rest => stepJson step :: stepsJson rest

end

def toJson (plan : Plan σ) : Json σ :=
  .obj [(ofString "steps", .arr (stepsJson plan.steps)),
    (ofString "end", .num (.int plan.stop))]

def render (plan : Plan σ) : String :=
  String.ofList (plan.toJson.chars Spelling.asciiText)

end Plan

end PathQuery
