import PathQuery.Json.Basic
import PathQuery.Json.Escape
import PathQuery.Number.Numeral

/-!
# Tokens of JSON text

JSON text is cut into punctuation, strings and words, with white space between
them.  A word is a maximal run of characters that are none of these, and it has
to name a scalar: `true`, `false`, `null`, `NaN`, an infinity or a number.

The lexer is a fold over the characters.  Its mode says what the characters so
far have begun; they are kept latest first.
-/

set_option autoImplicit false

namespace PathQuery.Json

inductive Token
  | openArray
  | closeArray
  | openObject
  | closeObject
  | comma
  | colon
  | text (value : String)
  | scalar (value : Json)

namespace Token

def punctuation? (c : Char) : Option Token :=
  if c = '[' then some .openArray
  else if c = ']' then some .closeArray
  else if c = '{' then some .openObject
  else if c = '}' then some .closeObject
  else if c = ',' then some .comma
  else if c = ':' then some .colon
  else none

def endsWord (c : Char) : Bool :=
  c.isWhitespace || c = '"' || (punctuation? c).isSome

def scalar? (word : List Char) : Option Json :=
  if word = "true".toList then some (.bool true)
  else if word = "false".toList then some (.bool false)
  else if word = "null".toList then some .null
  else if word = "NaN".toList then some (.num (.float .nan))
  else if word = "Infinity".toList then some (.num (.float (.infinite false)))
  else if word = "-Infinity".toList then some (.num (.float (.infinite true)))
  else (Numeral.read? word).map .num

inductive Mode
  | between
  | word (letters : List Char)
  | string (units : List Nat)
  | escape (units : List Nat)
  | hex (units : List Nat) (value missing : Nat)

structure Lexer where
  tokens : List Token
  mode : Mode

namespace Lexer

def start (tokens : List Token) (c : Char) : Lexer :=
  if c.isWhitespace then ⟨tokens, .between⟩
  else if c = '"' then ⟨tokens, .string []⟩
  else
    match punctuation? c with
    | some token => ⟨token :: tokens, .between⟩
    | none => ⟨tokens, .word [c]⟩

def step : Lexer → Char → Option Lexer
  | ⟨tokens, .between⟩, c => some (start tokens c)
  | ⟨tokens, .word letters⟩, c =>
    if endsWord c then
      (scalar? letters.reverse).map fun value => start (.scalar value :: tokens) c
    else some ⟨tokens, .word (c :: letters)⟩
  | ⟨tokens, .string units⟩, c =>
    if c = '"' then
      some ⟨.text (String.ofList (Escape.joinUnits units.reverse)) :: tokens, .between⟩
    else if c = '\\' then some ⟨tokens, .escape units⟩
    else if c.toNat < 0x20 then none
    else some ⟨tokens, .string (c.toNat :: units)⟩
  | ⟨tokens, .escape units⟩, c =>
    if c = 'u' then some ⟨tokens, .hex units 0 4⟩
    else (Escape.ofShortLetter? c).map fun unit => ⟨tokens, .string (unit :: units)⟩
  | ⟨tokens, .hex units value missing⟩, c =>
    (Escape.hexValue? c).map fun digit =>
      if missing ≤ 1 then ⟨tokens, .string ((value * 16 + digit) :: units)⟩
      else ⟨tokens, .hex units (value * 16 + digit) (missing - 1)⟩

def finish : Lexer → Option (List Token)
  | ⟨tokens, .between⟩ => some tokens.reverse
  | ⟨tokens, .word letters⟩ =>
    (scalar? letters.reverse).map fun value => (.scalar value :: tokens).reverse
  | _ => none

end Lexer

def scan? (text : List Char) : Option (List Token) :=
  (text.foldlM Lexer.step ⟨[], .between⟩).bind Lexer.finish

end Token

end PathQuery.Json
