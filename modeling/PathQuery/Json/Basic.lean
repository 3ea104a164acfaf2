import PathQuery.Number.Basic

/-!
# JSON values

A document is a tree of objects and arrays over scalars.  The members of an
object stand in the order in which they were written, and a well-formed
document has no key twice in one object, at any depth.

Strings are rows of Unicode scalar values, unless another type `σ` of strings
is asked for.
-/

set_option autoImplicit false

namespace PathQuery

inductive Json (σ : Type := String)
  | null
  | bool (value : Bool)
  | num (value : Number)
  | str (value : σ)
  | arr (elements : List (Json σ))
  | obj (members : List (σ × Json σ))

namespace Json

inductive Kind
  | null
  | boolean
  | number
  | string
  | array
  | object
deriving DecidableEq

def Kind.name : Kind → String
  | .null => "null"
  | .boolean => "boolean"
  | .number => "number"
  | .string => "string"
  | .array => "array"
  | .object => "object"

def kind : Json → Kind
  | .null => .null
  | .bool _ => .boolean
  | .num _ => .number
  | .str _ => .string
  | .arr _ => .array
  | .obj _ => .object

def isNull : Json → Bool
  | .null => true
  | _ => false

def isArray : Json → Bool
  | .arr _ => true
  | _ => false

def isContainer : Json → Bool
  | .arr _ => true
  | .obj _ => true
  | _ => false

/-- Gives `key` the value `value`: in its old place if the key is there, at the end if not. -/
def setMember (key : String) (value : Json) : List (String × Json) → List (String × Json)
  | [] => [(key, value)]
  | member :: rest =>
    if member.1 = key then (key, value) :: rest else member :: setMember key value rest

theorem mem_keys_setMember {key other : String} {value : Json} {members : List (String × Json)} :
    other ∈ (setMember key value members).map Prod.fst ↔
      other = key ∨ other ∈ members.map Prod.fst := by
  induction members with
  | nil => simp [setMember]
  | cons member rest ih =>
    unfold setMember
    by_cases h : member.1 = key
    · rw [if_pos h]
      simp only [List.map_cons, List.mem_cons, h]
      grind
    · rw [if_neg h, List.map_cons, List.mem_cons, ih, List.map_cons, List.mem_cons]
      grind

theorem nodup_keys_setMember {key : String} {value : Json} {members : List (String × Json)}
    (h : (members.map Prod.fst).Nodup) : ((setMember key value members).map Prod.fst).Nodup := by
  induction members with
  | nil => simp [setMember]
  | cons member rest ih =>
    rw [List.map_cons, List.nodup_cons] at h
    unfold setMember
    by_cases same : member.1 = key
    · rw [if_pos same, List.map_cons, List.nodup_cons]
      exact ⟨same ▸ h.1, h.2⟩
    · rw [if_neg same, List.map_cons, List.nodup_cons, mem_keys_setMember]
      exact ⟨fun either => either.elim same h.1, ih h.2⟩

mutual

def WellFormed : Json → Prop
  | .arr elements => ElementsWellFormed elements
  | .obj members => (members.map Prod.fst).Nodup ∧ MembersWellFormed members
  | _ => True

def ElementsWellFormed : List Json → Prop
  | [] => True
  | value :: rest => value.WellFormed ∧ ElementsWellFormed rest

def MembersWellFormed : List (String × Json) → Prop
  | [] => True
  | (_, value) :: rest => value.WellFormed ∧ MembersWellFormed rest

end

end Json

end PathQuery
