import PathQuery.Json.Printer
import PathQuery.Json.Reader
import PathQuery.Json.Removal
import PathQuery.Prune.Settings
import PathQuery.Query.Evaluate
import PathQuery.Text.Lines

/-!
# Pruning documents and payloads

Pruning removes from a document what a plan selects.  A payload holds one
document on each line; a line that a plan selects nothing in, or that is not
the text of a container, stays as it is, and any other line is written anew.
-/

set_option autoImplicit false

namespace PathQuery

def prune (plan : Option Plan) (document : Json) : Json × Nat :=
  document.removeAll (select plan document [])

def prune? (plan : Option Plan) (document : Json) : Except OverlongNumber (Json × Nat) :=
  (select? plan document []).map fun paths => document.removeAll paths

def Settings.write (settings : Settings) (document : Json) : List Char :=
  let text := Json.chars (Json.Escape.stringText settings.ascii) document
  if settings.escapeSlashes then Json.escapeSlashes text else text

structure PrunedLine where
  text : List Char
  pruned : Bool
  removed : Nat

namespace PrunedLine

def keep (line : List Char) : PrunedLine := ⟨line, false, 0⟩

def rewrite (settings : Settings) (pruned : Json × Nat) : PrunedLine :=
  ⟨settings.write pruned.1, true, pruned.2⟩

end PrunedLine

def pruneLine (settings : Settings) (plan : Option Plan) (line : List Char) : PrunedLine :=
  match Json.read? (String.ofList line) with
  | none => .keep line
  | some document =>
    if !document.isContainer || (select plan document []).isEmpty then .keep line
    else .rewrite settings (prune plan document)

def pruneLine? (settings : Settings) (plan : Option Plan) (line : List Char) :
    Except OverlongNumber PrunedLine :=
  match Json.read? (String.ofList line) with
  | none => .ok (.keep line)
  | some document =>
    if !document.isContainer then .ok (.keep line)
    else
      (select? plan document []).map fun paths =>
        if paths.isEmpty then .keep line else .rewrite settings (document.removeAll paths)

/-- A payload after pruning, with the number of lines, of pruned lines, and of
removed keys. -/
structure Outcome where
  text : String
  linesTotal : Int
  linesPruned : Int
  keysRemoved : Int

namespace Outcome

def changed (o : Outcome) : Bool := 0 < o.linesPruned

def ofLines (lines : List PrunedLine) : Outcome :=
  ⟨String.ofList (Text.joinLines (lines.map PrunedLine.text)),
    lines.length,
    (lines.countP PrunedLine.pruned : Nat),
    (lines.foldr (fun line total => line.removed + total) 0 : Nat)⟩

end Outcome

def pruneLines (settings : Settings) (plan : Option Plan) (text : String) : Outcome :=
  .ofLines ((Text.splitLines text.toList).map (pruneLine settings plan))

def pruneLines? (settings : Settings) (plan : Option Plan) (text : String) :
    Except OverlongNumber Outcome :=
  ((Text.splitLines text.toList).mapM (pruneLine? settings plan)).map .ofLines

end PathQuery
