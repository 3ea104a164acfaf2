import PathQuery.Text.Blank
import PathQuery.Text.Quoted

/-!
# Places in a query, and what can be wrong there

A cursor is an offset into a query, counted in characters, with the text from
there on.  Only `Cursor.advance` moves one, so offset and text stay in step.
-/

set_option autoImplicit false

namespace PathQuery

structure Cursor where
  offset : Nat
  rest : List Char

namespace Cursor

def start (query : String) : Cursor := ⟨0, query.toList⟩

def advance (cursor : Cursor) (count : Nat) : Cursor :=
  ⟨cursor.offset + count, cursor.rest.drop count⟩

def skipBlanks (cursor : Cursor) : Cursor :=
  cursor.advance (cursor.rest.takeWhile Text.isBlank).length

end Cursor

inductive Reason
  | emptyQuery
  | unexpectedDot
  | danglingAccessor
  | selectsNothing
  | expectedFilterEnd
  | expectedBracketEnd
  | unterminatedKey
  | unknownBracket
  | expectedIdentifier
  | comparisonAfterFilter
  | trailingText
deriving DecidableEq

namespace Reason

def text : Reason → String
  | .emptyQuery => "empty query"
  | .unexpectedDot => "unexpected '.'"
  | .danglingAccessor => "dangling accessor"
  | .selectsNothing => "query selects nothing"
  | .expectedFilterEnd => "expected ')]'"
  | .expectedBracketEnd => "expected ']' after quoted key"
  | .unterminatedKey => "unterminated quoted key"
  | .unknownBracket => "unrecognized bracket accessor"
  | .expectedIdentifier => "expected identifier"
  | .comparisonAfterFilter => "comparison after bracket predicate"
  | .trailingText => "unexpected trailing text"

end Reason

inductive CompileError
  | malformed (position : Nat) (reason : Reason)
  | overlongIndex (digits : Nat)
deriving DecidableEq

namespace CompileError

def overlongMessage (digits : Nat) : String :=
  "Exceeds the limit (4300 digits) for integer string conversion: value has " ++
    toString digits ++ " digits; use sys.set_int_max_str_digits() to increase the limit"

def message (query : String) : CompileError → String
  | .malformed position reason =>
    reason.text ++ " at offset " ++ toString position ++ " in " ++ Text.quoted query
  | .overlongIndex digits => overlongMessage digits

end CompileError

end PathQuery
