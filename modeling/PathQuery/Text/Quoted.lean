import PathQuery.Text.Printable

/-!
# Quoted display of a string

Messages show a string between quotes, on one line and free of characters that
are not printable.  The quote is `'`, unless the string holds `'` and no `"`;
the quote in use and the backslash are written behind a backslash, and a
character that is not printable as an escape of two, four or eight hexadecimal
digits.
-/

set_option autoImplicit false

namespace PathQuery.Text

def hexDigits : Nat → Nat → List Char
  | 0, _ => []
  | width + 1, n => hexDigits width (n / 16) ++ [Nat.digitChar (n % 16)]

@[simp] theorem length_hexDigits (width n : Nat) : (hexDigits width n).length = width := by
  induction width generalizing n with
  | zero => rfl
  | succ width ih => simp [hexDigits, ih]

def displayChar (quote c : Char) : List Char :=
  if c = quote ∨ c = '\\' then ['\\', c]
  else if c = '\n' then ['\\', 'n']
  else if c = '\r' then ['\\', 'r']
  else if c = '\t' then ['\\', 't']
  else if isPrintable c then [c]
  else if c.toNat < 0x100 then '\\' :: 'x' :: hexDigits 2 c.toNat
  else if c.toNat < 0x10000 then '\\' :: 'u' :: hexDigits 4 c.toNat
  else '\\' :: 'U' :: hexDigits 8 c.toNat

def displayQuote (text : List Char) : Char :=
  if '\'' ∈ text ∧ '"' ∉ text then '"' else '\''

def displayChars (text : List Char) : List Char :=
  let quote := displayQuote text
  quote :: text.flatMap (displayChar quote) ++ [quote]

def quoted (s : String) : String :=
  String.ofList (displayChars s.toList)

end PathQuery.Text
