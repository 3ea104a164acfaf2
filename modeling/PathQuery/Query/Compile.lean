import PathQuery.Json.Reader
import PathQuery.Query.Plan
import PathQuery.Query.QuotedKey

/-!
# Compiling a query

A query is an anchor, accessors, and perhaps a comparison of what the last
accessor finds.  An accessor is a dot or two before a name, a star or a
bracket, or a bracket alone; a bracket holds a star, a quoted key, an index or
a filter, and a filter holds a query.  Blanks may stand before an accessor and
behind its dots.

The parts of an accessor are read by functions that are handed the reader of
inner queries, so the only recursion is that of `accessors`.  It counts down
from the length of the query, and every accessor takes at least one character.
-/

set_option autoImplicit false

namespace PathQuery

/-- What is read of a query: its steps, whether a comparison ended it, and where it ended. -/
structure Parsed where
  steps : List Step
  compared : Bool
  rest : Cursor

namespace Compile

def fail {α : Type} (cursor : Cursor) (reason : Reason) : Except CompileError α :=
  .error (.malformed cursor.offset reason)

def isWordStart (c : Char) : Bool := c.isAlpha || c = '_'

def isWordPart (c : Char) : Bool := c.isAlphanum || c = '_'

def identifier (movement : Movement) (cursor : Cursor) : Except CompileError (Step × Cursor) :=
  match cursor.rest with
  | '*' :: _ => .ok (.keyed movement (some .wildcard) none false, cursor.advance 1)
  | first :: more =>
    if isWordStart first then
      let name := first :: more.takeWhile isWordPart
      .ok (.keyed movement (some (.name (String.ofList name))) none false,
        cursor.advance name.length)
    else fail cursor .expectedIdentifier
  | [] => fail cursor .expectedIdentifier

def indexDigits? : List Char → Option (Bool × List Char)
  | '[' :: rest =>
    let negative := rest.head? = some '-'
    let body := if negative then rest.drop 1 else rest
    let digits := body.takeWhile Char.isDigit
    if !digits.isEmpty && (body.drop digits.length).head? = some ']' then
      some (negative, digits)
    else none
  | _ => none

def index (movement : Movement) (cursor : Cursor) : Except CompileError (Step × Cursor) :=
  match indexDigits? cursor.rest with
  | none => fail cursor .unknownBracket
  | some (negative, digits) =>
    if Numeral.digitLimit < digits.length then .error (.overlongIndex digits.length)
    else
      let size : Int := Nat.ofDigitChars 10 digits 0
      .ok (.keyed movement (some (.index (if negative then -size else size))) none false,
        cursor.advance (digits.length + if negative then 3 else 2))

def negateLast : List Step → List Step
  | [] => []
  | [last] => [last.negate]
  | step :: next :: rest => step :: negateLast (next :: rest)

def filter (inner : Cursor → Except CompileError Parsed) (movement : Movement)
    (cursor : Cursor) : Except CompileError (Step × Cursor) := do
  let negated := cursor.rest.head? = some '!'
  let parsed ← inner (if negated then cursor.advance 1 else cursor)
  if [')', ']'].isPrefixOf parsed.rest.rest then
    let steps := if negated then negateLast parsed.steps else parsed.steps
    .ok (.filter movement (.mk steps parsed.rest.offset) false, parsed.rest.advance 2)
  else fail parsed.rest .expectedFilterEnd

def bracket (inner : Cursor → Except CompileError Parsed) (movement : Movement)
    (cursor : Cursor) : Except CompileError (Step × Cursor) :=
  match cursor.rest with
  | '[' :: '*' :: ']' :: _ => .ok (.keyed movement (some .wildcard) none false, cursor.advance 3)
  | '[' :: '\'' :: _ => do
    let (key, rest) ← QuotedKey.read (cursor.advance 2)
    .ok (.keyed movement (some (.name (String.ofList key))) none false, rest)
  | '[' :: '?' :: '(' :: _ => filter inner movement (cursor.advance 3)
  | _ => index movement cursor

def dotted (inner : Cursor → Except CompileError Parsed) (movement : Movement)
    (cursor : Cursor) : Except CompileError (Step × Cursor) :=
  match cursor.rest with
  | [] => fail cursor .danglingAccessor
  | '.' :: _ => fail cursor .unexpectedDot
  | '[' :: _ => bracket inner movement cursor
  | _ => identifier movement cursor

def accessor? (inner : Cursor → Except CompileError Parsed) (cursor : Cursor) :
    Except CompileError (Option (Step × Cursor)) :=
  match cursor.rest with
  | '.' :: '.' :: _ => some <$> dotted inner .descendants (cursor.advance 2).skipBlanks
  | '.' :: _ => some <$> dotted inner .children (cursor.advance 1).skipBlanks
  | '[' :: _ => some <$> bracket inner .children cursor
  | _ => .ok none

def operators (text : List Char) : List Operator :=
  Operator.all.filter fun op => op.symbol.toList.isPrefixOf text

def beforeFilterEnd? : List Char → Option (List Char)
  | [] => none
  | c :: rest =>
    if c = ')' && rest.head? = some ']' then some []
    else if c = '\n' then none
    else (beforeFilterEnd? rest).map (c :: ·)

/-- A literal: one character of any kind, and all that follows it up to the first `)]`. -/
def literal? : List Char → Option (List Char)
  | [] => none
  | c :: rest => if c = '\n' then none else (beforeFilterEnd? rest).map (c :: ·)

/-- The operator and the literal of a comparison.  Where the longer operator
leaves no literal, the shorter one is tried. -/
def comparison? (text : List Char) : Option (Operator × List Char) :=
  (operators text).findSome? fun op =>
    (literal? (text.drop op.symbol.length)).map fun literal => (op, literal)

/-- Ends a query behind its last step.  A literal that is not JSON is passed over,
and the step then only asks that its key is there. -/
def finish (last : Step) (cursor : Cursor) : Except CompileError Parsed :=
  match comparison? cursor.rest with
  | none => .ok ⟨[last], false, cursor⟩
  | some (op, literal) =>
    match last with
    | .filter .. => fail cursor .comparisonAfterFilter
    | .keyed movement selector comparison negated =>
      let compared :=
        match Json.read? (String.ofList literal) with
        | some operand => some ⟨op, operand⟩
        | none => comparison
      .ok ⟨[.keyed movement selector compared negated], true,
        cursor.advance (op.symbol.length + literal.length)⟩

def anchor (cursor : Cursor) : Step × Cursor :=
  match cursor.rest with
  | '$' :: _ => (.anchor .root, cursor.advance 1)
  | '@' :: _ => (.anchor .current, cursor.advance 1)
  | _ => (.anchor .current, cursor)

def query (behind : Step → Cursor → Except CompileError Parsed) (cursor : Cursor) :
    Except CompileError Parsed :=
  if cursor.rest.isEmpty then fail cursor .emptyQuery
  else do
    let (first, rest) := anchor cursor
    let parsed ← behind first rest
    if parsed.steps.length < 2 then fail parsed.rest .selectsNothing
    else .ok parsed

/-- Reads what follows the step `last`, which comes first among the steps read. -/
def accessors : Nat → Step → Cursor → Except CompileError Parsed
  | 0, _, cursor => fail cursor .selectsNothing
  | fuel + 1, last, cursor => do
    let cursor := cursor.skipBlanks
    match ← accessor? (query (accessors fuel)) cursor with
    | none => finish last cursor
    | some (step, rest) =>
      let parsed ← accessors fuel step rest
      .ok { parsed with steps := last :: parsed.steps }

end Compile

open Compile in
/-- Compiles a query.  A comparison at the outermost level may be followed by `)]`;
apart from that only blanks may follow. -/
def compile (text : String) : Except CompileError Plan := do
  let parsed ← query (accessors (text.length + 1)) (Cursor.start text)
  let rest :=
    if parsed.compared && [')', ']'].isPrefixOf parsed.rest.rest then parsed.rest.advance 2
    else parsed.rest
  if rest.rest.all Text.isBlank then .ok (.mk parsed.steps rest.offset)
  else fail rest .trailingText

structure OverlongIndex where
  digits : Nat
deriving DecidableEq

def OverlongIndex.message (e : OverlongIndex) : String := CompileError.overlongMessage e.digits

/-- Compiles a query; a malformed one has no plan. -/
def compile? (text : String) : Except OverlongIndex (Option Plan) :=
  match compile text with
  | .ok plan => .ok (some plan)
  | .error (.malformed ..) => .ok none
  | .error (.overlongIndex digits) => .error ⟨digits⟩

end PathQuery
