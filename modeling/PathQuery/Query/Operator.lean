import PathQuery.Json.Printer

/-!
# Comparison operators

Equality is strict: kinds have to agree, and a container equals nothing.  The
order is defined between two numbers, which are compared exactly, and between
two strings, by code point; it is false elsewhere.  The three text operators
look at the texts of both sides, whatever their kinds; a whole number that is
too long to be written has none.
-/

set_option autoImplicit false

namespace PathQuery

inductive Operator
  | equal
  | notEqual
  | startsWith
  | endsWith
  | contains
  | atMost
  | atLeast
  | less
  | greater
deriving DecidableEq

namespace Operator

def symbol : Operator → String
  | .equal => "=="
  | .notEqual => "!="
  | .startsWith => "^="
  | .endsWith => "$="
  | .contains => "*="
  | .atMost => "<="
  | .atLeast => ">="
  | .less => "<"
  | .greater => ">"

/-- Every operator; of two that begin alike the longer comes first. -/
def all : List Operator :=
  [.equal, .notEqual, .startsWith, .endsWith, .contains, .atMost, .atLeast, .less, .greater]

def ofSymbol? (symbol : String) : Option Operator :=
  all.find? fun op => op.symbol = symbol

theorem mem_all (op : Operator) : op ∈ all := by
  cases op <;> decide

theorem ofSymbol?_symbol (op : Operator) : ofSymbol? op.symbol = some op := by
  cases op <;> rfl

end Operator

namespace Json

def equal : Json → Json → Bool
  | .null, .null => true
  | .bool a, .bool b => a == b
  | .num a, .num b => a.equal b
  | .str a, .str b => a == b
  | _, _ => false

def less : Json → Json → Bool
  | .num a, .num b => a.less b
  | .str a, .str b => a < b
  | _, _ => false

def ordered : Json → Json → Bool
  | .num _, .num _ => true
  | .str _, .str _ => true
  | _, _ => false

end Json

namespace Operator

def holds (op : Operator) (value operand : Json) : Bool :=
  match op with
  | .equal => value.equal operand
  | .notEqual => !value.equal operand
  | .less => value.less operand
  | .greater => operand.less value
  | .atMost => value.ordered operand && (value.less operand || value.equal operand)
  | .atLeast => value.ordered operand && (operand.less value || value.equal operand)
  | .startsWith => value.text.startsWith operand.text
  | .endsWith => value.text.endsWith operand.text
  | .contains => value.text.contains operand.text

/-- Fails where the text of a side is looked at that cannot be written. -/
def holds? (op : Operator) (value operand : Json) : Except OverlongNumber Bool :=
  match op with
  | .startsWith => do return (← value.text?).startsWith (← operand.text?)
  | .endsWith => do return (← value.text?).endsWith (← operand.text?)
  | .contains => do return (← value.text?).contains (← operand.text?)
  | _ => .ok (op.holds value operand)

end Operator

inductive CompareError
  | unknownOperator (symbol : String)
  | overlongNumber (e : OverlongNumber)
deriving DecidableEq

def CompareError.message : CompareError → String
  | .unknownOperator symbol => "unknown comparison operator " ++ Text.quoted symbol
  | .overlongNumber e => e.message

def compareBySymbol (symbol : String) (value operand : Json) : Except CompareError Bool :=
  match Operator.ofSymbol? symbol with
  | some op => (op.holds? value operand).mapError .overlongNumber
  | none => .error (.unknownOperator symbol)

structure Comparison (σ : Type := String) where
  operator : Operator
  operand : Json σ

namespace Comparison

def holds (c : Comparison) (value : Json) : Bool := c.operator.holds value c.operand

def holds? (c : Comparison) (value : Json) : Except OverlongNumber Bool :=
  c.operator.holds? value c.operand

end Comparison

end PathQuery
