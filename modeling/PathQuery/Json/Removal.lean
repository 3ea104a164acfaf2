import PathQuery.Json.Path

/-!
# Removing nodes

Removing a member deletes it; removing an element leaves null in its place, so
that no other element moves.  The root cannot be removed.  `removeAll` takes
paths one after the other, each against the document that the earlier ones
left, and counts those that removed something; `without` deletes a whole set
of paths in one recursion over the document.
-/

set_option autoImplicit false

namespace PathQuery.Json

def removeChild? : Json → Key → Option Json
  | .obj members, .name text =>
    if (members.lookup text).isSome then some (.obj (members.filter fun m => m.1 ≠ text)) else none
  | .arr elements, .index (.ofNat position) =>
    if position < elements.length then some (.arr (elements.set position .null)) else none
  | _, _ => none

def replaceChild (value : Json) : Json → Key → Json
  | .obj members, .name text => .obj (setMember text value members)
  | .arr elements, .index (.ofNat position) => .arr (elements.set position value)
  | container, _ => container

def remove? (document : Json) : Path → Option Json
  | [] => none
  | [key] => document.removeChild? key
  | key :: next :: rest =>
    (document.child? key).bind fun child =>
      (child.remove? (next :: rest)).map fun changed => replaceChild changed document key

structure Removal where
  document : Json
  removed : Nat
  seen : List Path

namespace Removal

/-- Takes one more path.  The root is passed over, and so is a path that came before; a truth
value is the same there as the number it stands for. -/
def step (state : Removal) (path : Path) : Removal :=
  let plain := path.map Key.withoutFlag
  if path = [] ∨ plain ∈ state.seen then state
  else
    match state.document.remove? path with
    | none => { state with seen := plain :: state.seen }
    | some document => ⟨document, state.removed + 1, plain :: state.seen⟩

end Removal

def removeAll (document : Json) (paths : List Path) : Json × Nat :=
  let final := paths.foldl Removal.step ⟨document, 0, []⟩
  (final.document, final.removed)

mutual

/-- The node at `here` without the listed paths below it. -/
def without (paths : List Path) (here : Path) : Json → Json
  | .arr elements => .arr (elementsWithout paths here 0 elements)
  | .obj members => .obj (membersWithout paths here members)
  | value => value

def elementsWithout (paths : List Path) (here : Path) (position : Nat) : List Json → List Json
  | [] => []
  | value :: rest =>
    let path := here ++ [.index position]
    (if path ∈ paths then .null else without paths path value) ::
      elementsWithout paths here (position + 1) rest

def membersWithout (paths : List Path) (here : Path) :
    List (String × Json) → List (String × Json)
  | [] => []
  | (key, value) :: rest =>
    let path := here ++ [.name key]
    if path ∈ paths then membersWithout paths here rest
    else (key, without paths path value) :: membersWithout paths here rest

end

end PathQuery.Json
