import PathQuery.Number.Double

/-!
# Shortest decimals

The shortest decimal of a magnitude is found among its roundings: for each
number of digits, the two decimals next to the exact value are tried, and the
first length at which one of them reads back as the magnitude is the answer.
Of two that read back the nearer one is taken, of two equally near the even one.
The search ends at the latest with the exact value itself.
-/

set_option autoImplicit false

namespace PathQuery

structure Decimal where
  digits : Nat
  exponent : Int
deriving DecidableEq, Repr

namespace Decimal

/-- Removes the zeros at the end of the digits; zero itself gets exponent 0. -/
def trim (digits : Nat) (exponent : Int) : Decimal :=
  if digits = 0 then ⟨0, 0⟩
  else if digits % 10 = 0 then trim (digits / 10) (exponent + 1)
  else ⟨digits, exponent⟩
termination_by digits

def chars (d : Decimal) : List Char := Nat.toDigits 10 d.digits

def point (d : Decimal) : Int := d.chars.length + d.exponent

end Decimal

namespace Magnitude

/-- The exact value in units of 10^-1074. -/
def exact (m : Magnitude) : Nat := m.units * Nat.pow 5 1074

def readsBack (m : Magnitude) (dropped digits : Nat) : Bool :=
  ofDecimal? digits (dropped - 1074) = some m

/-- The rounding that leaves `dropped` digits of the exact value away, if one reads back. -/
def rounding? (m : Magnitude) (dropped : Nat) : Option Decimal :=
  let unit := Nat.pow 10 dropped
  let low := m.exact / unit
  let twice := 2 * (m.exact % unit)
  let choice : Option Nat :=
    match m.readsBack dropped low, m.readsBack dropped (low + 1) with
    | true, true => if twice < unit ∨ twice = unit ∧ low % 2 = 0 then some low else some (low + 1)
    | true, false => some low
    | false, true => some (low + 1)
    | false, false => none
  choice.map fun digits => Decimal.trim digits (dropped - 1074)

def shortest (m : Magnitude) : Decimal :=
  let width := (Nat.toDigits 10 m.exact).length
  ((List.range width).findSome? fun kept => m.rounding? (width - 1 - kept)).getD
    (Decimal.trim m.exact (-1074))

end Magnitude

end PathQuery
