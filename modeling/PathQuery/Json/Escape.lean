import PathQuery.Text.Quoted

/-!
# Strings in JSON text

Inside a JSON string a character is written as itself, behind a backslash, or
as one or two escapes of four hexadecimal digits, each of which names a code
unit of UTF-16.  Reading collects code units and joins each high half with a
low half right behind it; a half without its partner reads as U+FFFD.
-/

set_option autoImplicit false

namespace PathQuery.Json.Escape

def isHighHalf (unit : Nat) : Bool := 0xD800 ≤ unit && unit < 0xDC00

def isLowHalf (unit : Nat) : Bool := 0xDC00 ≤ unit && unit < 0xE000

def units (c : Char) : List Nat :=
  if c.toNat < 0x10000 then [c.toNat]
  else [0xD800 + (c.toNat - 0x10000) / 0x400, 0xDC00 + (c.toNat - 0x10000) % 0x400]

def ofUnit (unit : Nat) : Char :=
  if isHighHalf unit || isLowHalf unit then '\uFFFD' else Char.ofNat unit

def ofHalves (high low : Nat) : Char :=
  Char.ofNat (0x10000 + (high - 0xD800) * 0x400 + (low - 0xDC00))

def joinUnits : List Nat → List Char
  | [] => []
  | [unit] => [ofUnit unit]
  | unit :: next :: rest =>
    if isHighHalf unit && isLowHalf next then ofHalves unit next :: joinUnits rest
    else ofUnit unit :: joinUnits (next :: rest)

def shortLetter? (c : Char) : Option Char :=
  if c = '"' ∨ c = '\\' then some c
  else if c = '\n' then some 'n'
  else if c = '\r' then some 'r'
  else if c = '\t' then some 't'
  else if c = '\x08' then some 'b'
  else if c = '\x0c' then some 'f'
  else none

def ofShortLetter? (letter : Char) : Option Nat :=
  if letter = '"' ∨ letter = '\\' ∨ letter = '/' then some letter.toNat
  else if letter = 'n' then some 0x0A
  else if letter = 'r' then some 0x0D
  else if letter = 't' then some 0x09
  else if letter = 'b' then some 0x08
  else if letter = 'f' then some 0x0C
  else none

def longEscape (unit : Nat) : List Char := '\\' :: 'u' :: Text.hexDigits 4 unit

def hexValue? (c : Char) : Option Nat :=
  if c.isDigit then some (c.toNat - '0'.toNat)
  else if 'a' ≤ c ∧ c ≤ 'f' then some (c.toNat - 'a'.toNat + 10)
  else if 'A' ≤ c ∧ c ≤ 'F' then some (c.toNat - 'A'.toNat + 10)
  else none

/-- A character inside a written string.  With `ascii`, all but the space and the
printing characters of ASCII are escaped; else only control characters are. -/
def charText (ascii : Bool) (c : Char) : List Char :=
  match shortLetter? c with
  | some letter => ['\\', letter]
  | none =>
    if c.toNat < 0x20 || ascii && 0x7E < c.toNat then (units c).flatMap longEscape else [c]

def stringText (ascii : Bool) (s : String) : List Char :=
  '"' :: s.toList.flatMap (charText ascii) ++ ['"']

/-- The ASCII text of a code point; a half of a pair is escaped by itself. -/
def pointText (point : Fin 0x110000) : List Char :=
  if isHighHalf point || isLowHalf point then longEscape point
  else charText true (Char.ofNat point)

def pointsText (points : List (Fin 0x110000)) : List Char :=
  '"' :: points.flatMap pointText ++ ['"']

end PathQuery.Json.Escape
