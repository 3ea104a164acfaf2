import PathQuery.Number.Shortest

/-!
# Layouts of floating-point numbers

A layout says how the shortest decimal of a number is written: where positional
notation ends and the exponent form begins, what follows a whole number, how
wide an exponent is at least, and whether zero shows its sign.  There are two
of them, one for documents and one for the texts that a comparison looks at.
-/

set_option autoImplicit false

namespace PathQuery

structure Layout where
  leastPoint : Int
  greatestPoint : Int
  wholeTail : List Char
  exponentWidth : Nat
  signedZero : Bool

namespace Layout

/-- Documents write 10^-4 up to 10^16 positionally, always with a fraction. -/
def document : Layout := ⟨-3, 16, ['.', '0'], 2, true⟩

/-- Comparisons see 10^-6 up to 10^21 positionally, a whole number without a
point, and both zeros alike. -/
def comparison : Layout := ⟨-5, 21, [], 1, false⟩

def positional (layout : Layout) (digits : List Char) (point : Int) : List Char :=
  if point ≤ 0 then
    '0' :: '.' :: List.replicate (-point).toNat '0' ++ digits
  else if point < digits.length then
    digits.take point.toNat ++ '.' :: digits.drop point.toNat
  else
    digits ++ List.replicate (point.toNat - digits.length) '0' ++ layout.wholeTail

def scientific (layout : Layout) (digits : List Char) (power : Int) : List Char :=
  let mantissa :=
    match digits with
    | first :: second :: rest => first :: '.' :: second :: rest
    | _ => digits
  let width := Nat.toDigits 10 power.natAbs
  mantissa ++ 'e' :: (if power < 0 then '-' else '+') ::
    List.replicate (layout.exponentWidth - width.length) '0' ++ width

def decimal (layout : Layout) (d : Decimal) : List Char :=
  if layout.leastPoint ≤ d.point ∧ d.point ≤ layout.greatestPoint then
    layout.positional d.chars d.point
  else
    layout.scientific d.chars (d.point - 1)

def withSign (negative : Bool) (text : List Char) : List Char :=
  if negative then '-' :: text else text

def chars (layout : Layout) : Double → List Char
  | .nan => "NaN".toList
  | .infinite negative => withSign negative "Infinity".toList
  | .finite negative m =>
    withSign (negative && (layout.signedZero || m.significand != 0)) (layout.decimal m.shortest)

end Layout

end PathQuery
