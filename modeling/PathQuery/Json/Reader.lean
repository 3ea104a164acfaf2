import PathQuery.Json.Token

/-!
# Reading JSON text

The tokens of a text are read from left to right by a stack machine.  Its stack
holds the containers that are open around the current place, innermost first,
and its expectation says what the next token may be.  A key that comes again in
one object keeps its first place and takes its last value, so every document
that is read is well-formed.
-/

set_option autoImplicit false

namespace PathQuery.Json

namespace Reader

/-- An open container with what was read of it; elements are kept latest first. -/
inductive Frame
  | array (before : List Json)
  | object (before : List (String × Json)) (key : String)

inductive Expectation
  | value
  | firstElement
  | firstKey
  | key (before : List (String × Json))
  | colon (before : List (String × Json)) (key : String)
  | ended (value : Json)

structure State where
  stack : List Frame
  expectation : Expectation

def startValue (stack : List Frame) : Token → Option State
  | .openArray => some ⟨.array [] :: stack, .firstElement⟩
  | .openObject => some ⟨stack, .firstKey⟩
  | .text value => some ⟨stack, .ended (.str value)⟩
  | .scalar value => some ⟨stack, .ended value⟩
  | _ => none

def step : State → Token → Option State
  | ⟨stack, .value⟩, token => startValue stack token
  | ⟨.array [] :: stack, .firstElement⟩, .closeArray => some ⟨stack, .ended (.arr [])⟩
  | ⟨stack, .firstElement⟩, token => startValue stack token
  | ⟨stack, .firstKey⟩, .closeObject => some ⟨stack, .ended (.obj [])⟩
  | ⟨stack, .firstKey⟩, .text key => some ⟨stack, .colon [] key⟩
  | ⟨stack, .key before⟩, .text key => some ⟨stack, .colon before key⟩
  | ⟨stack, .colon before key⟩, .colon => some ⟨.object before key :: stack, .value⟩
  | ⟨.array before :: stack, .ended value⟩, .comma =>
    some ⟨.array (value :: before) :: stack, .value⟩
  | ⟨.array before :: stack, .ended value⟩, .closeArray =>
    some ⟨stack, .ended (.arr (value :: before).reverse)⟩
  | ⟨.object before key :: stack, .ended value⟩, .comma =>
    some ⟨stack, .key (setMember key value before)⟩
  | ⟨.object before key :: stack, .ended value⟩, .closeObject =>
    some ⟨stack, .ended (.obj (setMember key value before))⟩
  | _, _ => none

def finish : State → Option Json
  | ⟨[], .ended value⟩ => some value
  | _ => none

end Reader

def ofTokens? (tokens : List Token) : Option Json :=
  (tokens.foldlM Reader.step ⟨[], .value⟩).bind Reader.finish

def read? (text : String) : Option Json :=
  (Token.scan? text.toList).bind ofTokens?

end PathQuery.Json
