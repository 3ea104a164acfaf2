import PathQuery.Json.Basic
import PathQuery.Json.Escape
import PathQuery.Number.Numeral

/-!
# Writing JSON text

Documents are written compactly: members and elements in order, no white space.
Where `ascii` is asked for, characters outside ASCII are escaped.  A finished
text may also have its slashes escaped, which changes no value because a slash
only ever stands inside a string.
-/

set_option autoImplicit false

namespace PathQuery.Json

mutual

def chars {σ : Type} (write : σ → List Char) : Json σ → List Char
  | .null => "null".toList
  | .bool true => "true".toList
  | .bool false => "false".toList
  | .num value => value.chars .document
  | .str value => write value
  | .arr elements => '[' :: elementsChars write elements ++ [']']
  | .obj members => '{' :: membersChars write members ++ ['}']

def elementsChars {σ : Type} (write : σ → List Char) : List (Json σ) → List Char
  | [] => []
  | value :: rest =>
    chars write value ++ if rest.isEmpty then [] else ',' :: elementsChars write rest

def membersChars {σ : Type} (write : σ → List Char) : List (σ × Json σ) → List Char
  | [] => []
  | (key, value) :: rest =>
    write key ++ ':' :: chars write value ++
      if rest.isEmpty then [] else ',' :: membersChars write rest

end

def render (document : Json) (ascii : Bool) : String :=
  String.ofList (chars (Escape.stringText ascii) document)

def escapeSlashes (text : List Char) : List Char :=
  text.flatMap fun c => if c = '/' then ['\\', '/'] else [c]

mutual

def ShortNumbers : Json → Prop
  | .num value => value.Short
  | .arr elements => ElementsShort elements
  | .obj members => MembersShort members
  | _ => True

def ElementsShort : List Json → Prop
  | [] => True
  | value :: rest => value.ShortNumbers ∧ ElementsShort rest

def MembersShort : List (String × Json) → Prop
  | [] => True
  | (_, value) :: rest => value.ShortNumbers ∧ MembersShort rest

end

mutual

instance decidableShortNumbers : (value : Json) → Decidable value.ShortNumbers
  | .num value => inferInstanceAs (Decidable value.Short)
  | .arr elements => decidableElementsShort elements
  | .obj members => decidableMembersShort members
  | .null | .bool _ | .str _ => .isTrue trivial

def decidableElementsShort : (elements : List Json) → Decidable (ElementsShort elements)
  | [] => .isTrue trivial
  | value :: rest =>
    @instDecidableAnd _ _ (decidableShortNumbers value) (decidableElementsShort rest)

def decidableMembersShort : (members : List (String × Json)) → Decidable (MembersShort members)
  | [] => .isTrue trivial
  | (_, value) :: rest =>
    @instDecidableAnd _ _ (decidableShortNumbers value) (decidableMembersShort rest)

end

/-- A string is its own text, a number is laid out for comparisons, and any other
value has its compact text. -/
def text : Json → String
  | .str value => value
  | .num value => String.ofList (value.chars .comparison)
  | value => value.render false

def text? (value : Json) : Except OverlongNumber String :=
  if value.ShortNumbers then .ok value.text else .error ⟨⟩

end PathQuery.Json
