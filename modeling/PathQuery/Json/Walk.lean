import PathQuery.Json.Path

/-!
# Walking through a document

The descendants of a value are listed in pre-order: a node before the nodes
below it, and its whole subtree before its next sibling.  `Walk.next?` finds
them one at a time with a stack of open containers, so a reader may stop early;
`preorder` is the same list by recursion on the document.
-/

set_option autoImplicit false

namespace PathQuery

structure Descendant where
  container : Json
  key : Key
  path : Path
  value : Json

namespace Json

namespace Walk

structure Frame where
  path : Path
  container : Json
  pending : List (Key × Json)

def next? (recursive : Bool) : List Frame → Option (Descendant × List Frame)
  | [] => none
  | ⟨_, _, []⟩ :: stack => next? recursive stack
  | ⟨path, container, (key, value) :: pending⟩ :: stack =>
    let here := path ++ [key]
    let rest := ⟨path, container, pending⟩ :: stack
    some (⟨container, key, here, value⟩,
      if recursive then ⟨here, value, value.children⟩ :: rest else rest)

def take (recursive : Bool) : Nat → List Frame → List Descendant
  | 0, _ => []
  | count + 1, stack =>
    match next? recursive stack with
    | none => []
    | some (node, stack) => node :: take recursive count stack

def start (value : Json) : List Frame := [⟨[], value, value.children⟩]

end Walk

mutual

def descendantCount : Json → Nat
  | .arr elements => elementsCount elements
  | .obj members => membersCount members
  | _ => 0

def elementsCount : List Json → Nat
  | [] => 0
  | value :: rest => 1 + value.descendantCount + elementsCount rest

def membersCount : List (String × Json) → Nat
  | [] => 0
  | (_, value) :: rest => 1 + value.descendantCount + membersCount rest

end

def firstDescendants (value : Json) (recursive : Bool) (count : Nat) : List Descendant :=
  Walk.take recursive count (Walk.start value)

/-- All nodes of a walk; there are no more steps to take than nodes below the value. -/
def descendants (value : Json) (recursive : Bool) : List Descendant :=
  value.firstDescendants recursive value.descendantCount

mutual

def preorder (path : Path) : Json → List Descendant
  | .arr elements => elementsPreorder path (.arr elements) 0 elements
  | .obj members => membersPreorder path (.obj members) members
  | _ => []

def elementsPreorder (path : Path) (container : Json) (position : Nat) :
    List Json → List Descendant
  | [] => []
  | value :: rest =>
    let here := path ++ [.index position]
    ⟨container, .index position, here, value⟩ :: preorder here value ++
      elementsPreorder path container (position + 1) rest

def membersPreorder (path : Path) (container : Json) :
    List (String × Json) → List Descendant
  | [] => []
  | (key, value) :: rest =>
    let here := path ++ [.name key]
    ⟨container, .name key, here, value⟩ :: preorder here value ++
      membersPreorder path container rest

end

end Json

end PathQuery
