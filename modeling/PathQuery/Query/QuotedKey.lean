import PathQuery.Query.Cursor

/-!
# Quoted keys

Between `['` and `']` stands a key in which a backslash makes the quote and the
backslash itself plain; before any other character it is an ordinary character.

`scan` cuts the text into slices that are copied whole, each starting where the
one before it was cut; `decode` reads one character at a time; `encode` is the
written form of a key.  The compiler uses `scan`.
-/

set_option autoImplicit false

namespace PathQuery.QuotedKey

def isEscapable (c : Char) : Bool := c = '\'' || c = '\\'

def close (key : List Char) (offset : Nat) : List Char → Except CompileError (List Char × Cursor)
  | ']' :: rest => .ok (key, ⟨offset + 2, rest⟩)
  | _ => .error (.malformed offset .expectedBracketEnd)

/-- Scans from `offset` on.  The slice at hand starts at `mark` and is `length` long;
`slices` are those before it. -/
def scan (slices : List (List Char)) (mark : List Char) (length offset : Nat) :
    List Char → Except CompileError (List Char × Cursor)
  | [] => .error (.malformed offset .unterminatedKey)
  | [c] =>
    if c = '\'' then .error (.malformed offset .expectedBracketEnd)
    else .error (.malformed (offset + 1) .unterminatedKey)
  | c :: next :: rest =>
    if c = '\'' then close (slices ++ [mark.take length]).flatten offset (next :: rest)
    else if c = '\\' && isEscapable next then
      scan (slices ++ [mark.take length]) (next :: rest) 1 (offset + 2) rest
    else scan slices mark (length + 1) (offset + 1) (next :: rest)

def read (cursor : Cursor) : Except CompileError (List Char × Cursor) :=
  scan [] cursor.rest 0 cursor.offset cursor.rest

def push (c : Char) (result : List Char × Cursor) : List Char × Cursor := (c :: result.1, result.2)

def decode (offset : Nat) : List Char → Except CompileError (List Char × Cursor)
  | [] => .error (.malformed offset .unterminatedKey)
  | [c] =>
    if c = '\'' then .error (.malformed offset .expectedBracketEnd)
    else .error (.malformed (offset + 1) .unterminatedKey)
  | c :: next :: rest =>
    if c = '\'' then close [] offset (next :: rest)
    else if c = '\\' && isEscapable next then (decode (offset + 2) rest).map (push next)
    else (decode (offset + 1) (next :: rest)).map (push c)

def encode (key : List Char) : List Char :=
  key.flatMap fun c => if isEscapable c then ['\\', c] else [c]

end PathQuery.QuotedKey
