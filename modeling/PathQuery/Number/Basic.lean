import PathQuery.Number.Layout

/-!
# Numbers

A number is a whole number of any size or a binary64 number, and the two are
told apart even where they are equal.  Comparing them is exact: both are placed
on one line that is measured in units of 2^-1074 and ends in the infinities.
NaN has no place on it, so it is neither less than, equal to, nor greater than
any number.
-/

set_option autoImplicit false

namespace PathQuery

inductive Number
  | int (value : Int)
  | float (value : Double)
deriving DecidableEq

inductive Extent
  | below
  | finite (units : Int)
  | above
deriving DecidableEq

namespace Extent

def less : Extent → Extent → Bool
  | .below, .below => false
  | .below, _ => true
  | .finite a, .finite b => a < b
  | .finite _, .above => true
  | .finite _, .below => false
  | .above, _ => false

end Extent

namespace Number

def unitsOfOne : Nat := 1 <<< 1074

def extent? : Number → Option Extent
  | .int value => some (.finite (value * unitsOfOne))
  | .float .nan => none
  | .float (.infinite negative) => some (if negative then .below else .above)
  | .float (.finite negative m) => some (.finite (if negative then -m.units else m.units))

def equal (a b : Number) : Bool :=
  match a.extent?, b.extent? with
  | some x, some y => x = y
  | _, _ => false

def less (a b : Number) : Bool :=
  match a.extent?, b.extent? with
  | some x, some y => x.less y
  | _, _ => false

def intChars (value : Int) : List Char :=
  Layout.withSign (value < 0) (Nat.toDigits 10 value.natAbs)

def chars (layout : Layout) : Number → List Char
  | .int value => intChars value
  | .float value => layout.chars value

end Number

end PathQuery
