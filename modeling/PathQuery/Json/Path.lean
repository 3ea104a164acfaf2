import PathQuery.Json.Basic

/-!
# Paths

A path leads from the root of a document to a node, one key per level: the
name of an object's member or the index of an array's element.  Only indices
from 0 up to the length lead anywhere, and a truth value, which a path may
hold too, never does.
-/

set_option autoImplicit false

namespace PathQuery

inductive Key
  | name (text : String)
  | index (position : Int)
  | flag (value : Bool)
deriving DecidableEq

/-- A truth value is taken for the number it stands for. -/
def Key.withoutFlag : Key → Key
  | .flag value => .index (if value then 1 else 0)
  | key => key

abbrev Path := List Key

namespace Json

def child? : Json → Key → Option Json
  | .obj members, .name text => members.lookup text
  | .arr elements, .index (.ofNat position) => elements[position]?
  | _, _ => none

def owns (container : Json) (key : Key) : Bool := (container.child? key).isSome

def children : Json → List (Key × Json)
  | .obj members => members.map fun member => (.name member.1, member.2)
  | .arr elements => elements.mapIdx fun position value => (.index position, value)
  | _ => []

def get? (document : Json) : Path → Option Json
  | [] => some document
  | key :: rest => (document.child? key).bind fun child => child.get? rest

@[simp] theorem get?_nil (document : Json) : document.get? [] = some document := by
  unfold get?
  rfl

@[simp] theorem get?_cons (document : Json) (key : Key) (rest : Path) :
    document.get? (key :: rest) = (document.child? key).bind fun child => child.get? rest := by
  rw [get?]

theorem get?_append (document : Json) (front back : Path) :
    document.get? (front ++ back) = (document.get? front).bind fun node => node.get? back := by
  induction front generalizing document with
  | nil => simp
  | cons key rest ih =>
    rw [List.cons_append, get?_cons, get?_cons]
    cases document.child? key with
    | none => rfl
    | some child => exact ih child

end Json

end PathQuery
