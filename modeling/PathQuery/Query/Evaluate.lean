import PathQuery.Json.Resolve
import PathQuery.Json.Walk
import PathQuery.Query.Plan

/-!
# Evaluating a plan

Evaluating a plan carries a list of paths from step to step, in the order of
discovery and with repetitions.  A step that goes down leaves every path out
that leads nowhere or to null.  Of the paths that its selector proposes, it
keeps those that pass its predicate: the key has to be there, and its value
has to satisfy the comparison if there is one.  A negated step keeps the
others, but where a comparison is asked of a key that is not there, the path is
dropped either way.

A filter proposes nodes instead of keys: the node itself, or the elements of an
array in its place, and with descendants all nodes below that are not arrays.

A comparison may look at the text of a whole number that is too long to be
written.  `select` is the selection as if all numbers could be written, and
`select?` fails at such a comparison.
-/

set_option autoImplicit false

namespace PathQuery

def passes (comparison : Option Comparison) (negated : Bool) (r : Resolution) : Bool :=
  match comparison with
  | none => r.owned != negated
  | some comparison => r.owned && comparison.holds r.value != negated

def Step.passes : Step → Resolution → Bool
  | .keyed _ _ comparison negated, r => PathQuery.passes comparison negated r
  | .filter _ _ negated, r => PathQuery.passes none negated r

namespace Evaluate

def namedPaths (names : List String) (recursive : Bool) (path : Path) (value : Json) : List Path :=
  names.map (fun name => path ++ [.name name]) ++
    if recursive then
      (value.descendants true).flatMap fun node =>
        (names.filter fun name => node.value.owns (.name name)).map fun name =>
          path ++ node.path ++ [.name name]
    else []

/-- The place of an index in an array; a negative one counts from the end. -/
def position? (index : Int) : Json → Option Int
  | .arr elements =>
    let position := if 0 ≤ index then index else elements.length + index
    if 0 ≤ position ∧ position < elements.length then some position else none
  | _ => none

def indexedPaths (index : Int) (recursive : Bool) (path : Path) (value : Json) : List Path :=
  ((position? index value).map fun position => path ++ [.index position]).toList ++
    if recursive then
      (value.descendants true).filterMap fun node =>
        (position? index node.value).map fun position => path ++ node.path ++ [.index position]
    else []

def proposed (selector : Option Selector) (recursive : Bool) (path : Path) (value : Json) :
    List Path :=
  match selector with
  | none => []
  | some .wildcard => (value.descendants recursive).map fun node => path ++ node.path
  | some (.index index) => indexedPaths index recursive path value
  | some (.name name) => namedPaths [name] recursive path value
  | some (.names names) => namedPaths names recursive path value

def tested (recursive : Bool) (path : Path) (value : Json) : List Path :=
  (if value.isArray then [] else [path]) ++
    if value.isArray || recursive then
      ((value.descendants recursive).filter fun node => !node.value.isArray).map fun node =>
        path ++ node.path
    else []

def expand (document : Json) (visit : Path → Json → List Path) (paths : List Path) : List Path :=
  paths.flatMap fun path =>
    let value := (document.resolve path).value
    if value.isNull then [] else visit path value

/-- Starts anew at an anchor; goes down elsewhere, recursively where all descendants are meant. -/
def move (document : Json) (current : Path) (movement : Movement)
    (visit : Bool → Path → Json → List Path) (paths : List Path) : List Path :=
  match movement with
  | .root => [[]]
  | .current => [current]
  | .children => expand document (visit false) paths
  | .descendants => expand document (visit true) paths

mutual

def selectPlan (document : Json) (current : Path) : Plan → List Path
  | .mk steps _ => selectSteps document current steps []

def selectSteps (document : Json) (current : Path) : List Step → List Path → List Path
  | [], paths => paths
  | step :: rest, paths => selectSteps document current rest (selectStep document current step paths)

def selectStep (document : Json) (current : Path) : Step → List Path → List Path
  | .keyed movement selector comparison negated, paths =>
    move document current movement (fun recursive path value =>
      (proposed selector recursive path value).filter fun p =>
        passes comparison negated (document.resolve p)) paths
  | .filter movement plan negated, paths =>
    move document current movement (fun recursive path value =>
      (tested recursive path value).filter fun p =>
        (selectPlan document p plan).isEmpty == negated) paths

end

end Evaluate

/-- The paths that a plan selects in a document, `@` standing for `current`. -/
def Plan.select (plan : Plan) (document : Json) (current : Path) : List Path :=
  Evaluate.selectPlan document current plan

def select (plan : Option Plan) (document : Json) (current : Path) : List Path :=
  match plan with
  | some plan => plan.select document current
  | none => []

/-! ## Numbers that cannot be written -/

def passes? (comparison : Option Comparison) (negated : Bool) (r : Resolution) :
    Except OverlongNumber Bool :=
  match comparison with
  | none => .ok (r.owned != negated)
  | some comparison =>
    if r.owned then (comparison.holds? r.value).map fun held => held != negated else .ok false

def Step.passes? : Step → Resolution → Except OverlongNumber Bool
  | .keyed _ _ comparison negated, r => PathQuery.passes? comparison negated r
  | .filter _ _ negated, r => PathQuery.passes? none negated r

namespace Evaluate

def collect? {α β : Type} (visit : α → Except OverlongNumber (List β)) (items : List α) :
    Except OverlongNumber (List β) :=
  (items.mapM visit).map List.flatten

def keep? (asks : Path → Except OverlongNumber Bool) (paths : List Path) :
    Except OverlongNumber (List Path) :=
  collect? (fun path => (asks path).map fun kept => if kept then [path] else []) paths

def expand? (document : Json) (visit : Path → Json → Except OverlongNumber (List Path))
    (paths : List Path) : Except OverlongNumber (List Path) :=
  collect? (fun path =>
    let value := (document.resolve path).value
    if value.isNull then .ok [] else visit path value) paths

def move? (document : Json) (current : Path) (movement : Movement)
    (visit : Bool → Path → Json → Except OverlongNumber (List Path)) (paths : List Path) :
    Except OverlongNumber (List Path) :=
  match movement with
  | .root => .ok [[]]
  | .current => .ok [current]
  | .children => expand? document (visit false) paths
  | .descendants => expand? document (visit true) paths

mutual

def selectPlan? (document : Json) (current : Path) : Plan → Except OverlongNumber (List Path)
  | .mk steps _ => selectSteps? document current steps []

def selectSteps? (document : Json) (current : Path) :
    List Step → List Path → Except OverlongNumber (List Path)
  | [], paths => .ok paths
  | step :: rest, paths => do
    selectSteps? document current rest (← selectStep? document current step paths)

def selectStep? (document : Json) (current : Path) :
    Step → List Path → Except OverlongNumber (List Path)
  | .keyed movement selector comparison negated, paths =>
    move? document current movement (fun recursive path value =>
      keep? (fun p => passes? comparison negated (document.resolve p))
        (proposed selector recursive path value)) paths
  | .filter movement plan negated, paths =>
    move? document current movement (fun recursive path value =>
      keep? (fun p => (selectPlan? document p plan).map fun found => found.isEmpty == negated)
        (tested recursive path value)) paths

end

end Evaluate

/-- The paths that a plan selects, unless it looks at the text of a number that has none. -/
def Plan.select? (plan : Plan) (document : Json) (current : Path) :
    Except OverlongNumber (List Path) :=
  Evaluate.selectPlan? document current plan

def select? (plan : Option Plan) (document : Json) (current : Path) :
    Except OverlongNumber (List Path) :=
  match plan with
  | some plan => plan.select? document current
  | none => .ok []

end PathQuery
