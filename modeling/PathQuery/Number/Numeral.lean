import PathQuery.Number.Basic

/-!
# Numerals

A numeral is an optional minus sign, whole digits without a needless leading
zero, an optional fraction and an optional exponent.  One without fraction and
exponent is a whole number and may have at most 4300 digits; any other numeral
is the nearest binary64 number and may have any length.  Nor is a whole number
written that has more digits.
-/

set_option autoImplicit false

namespace PathQuery

namespace Numeral

/-- The longest digit string that a whole number is converted from or to. -/
def digitLimit : Nat := 4300

def takeDigits (text : List Char) : List Char × List Char :=
  text.span Char.isDigit

def whole? (text : List Char) : Option (List Char × List Char) :=
  match takeDigits text with
  | ([], _) => none
  | ('0' :: _ :: _, _) => none
  | parts => some parts

def fraction? : List Char → Option (List Char × List Char)
  | '.' :: rest =>
    match takeDigits rest with
    | ([], _) => none
    | parts => some parts
  | rest => some ([], rest)

def exponent? : List Char → Option (Option Int)
  | [] => some none
  | mark :: rest =>
    if mark = 'e' ∨ mark = 'E' then
      let (negative, digits) :=
        match rest with
        | '-' :: digits => (true, digits)
        | '+' :: digits => (false, digits)
        | _ => (false, rest)
      if digits.isEmpty || !digits.all Char.isDigit then none
      else
        let size : Int := Nat.ofDigitChars 10 digits 0
        some (some (if negative then -size else size))
    else none

def unsigned? (negative : Bool) (text : List Char) : Option Number := do
  let (whole, rest) ← whole? text
  let (fraction, rest') ← fraction? rest
  match ← exponent? rest', fraction with
  | none, [] =>
    if whole.length ≤ digitLimit then
      let size : Int := Nat.ofDigitChars 10 whole 0
      some (.int (if negative then -size else size))
    else none
  | exponent, _ =>
    some (.float (.ofDecimal negative (Nat.ofDigitChars 10 (whole ++ fraction) 0)
      (exponent.getD 0 - fraction.length)))

def read? : List Char → Option Number
  | '-' :: rest => unsigned? true rest
  | text => unsigned? false text

end Numeral

namespace Number

def Short : Number → Prop
  | .int value => (Nat.toDigits 10 value.natAbs).length ≤ Numeral.digitLimit
  | .float _ => True

instance decidableShort : DecidablePred Short
  | .int _ => inferInstanceAs (Decidable (_ ≤ Numeral.digitLimit))
  | .float _ => .isTrue trivial

end Number

structure OverlongNumber
deriving DecidableEq

def OverlongNumber.message (_ : OverlongNumber) : String :=
  "Exceeds the limit (4300 digits) for integer string conversion; " ++
    "use sys.set_int_max_str_digits() to increase the limit"

end PathQuery
