import PathQuery.Json.Path

/-!
# Resolving a path

Resolving a path answers with the last key, the container that the key is
looked up in, and the value found there.  Nothing in a document is below null,
so a way that ends early and a way that ends in null both leave no container;
a value that is not there reads as null.  The root has neither container nor key.
-/

set_option autoImplicit false

namespace PathQuery

structure Resolution where
  container : Option Json
  key : Option Key
  value : Json

namespace Resolution

def owned (r : Resolution) : Bool :=
  match r.container, r.key with
  | some container, some key => container.owns key
  | _, _ => false

end Resolution

namespace Json

def containerAt? (document : Json) (path : Path) : Option Json :=
  (document.get? path.dropLast).filter fun node => !node.isNull

def resolve (document : Json) (path : Path) : Resolution :=
  match path.getLast? with
  | none => ⟨none, none, document⟩
  | some key =>
    let container := document.containerAt? path
    ⟨container, some key, (container.bind fun node => node.child? key).getD .null⟩

theorem child?_null (key : Key) : child? .null key = none := by
  cases key <;> rfl

theorem owned_resolve_iff (document : Json) (path : Path) :
    (document.resolve path).owned = true ↔ path ≠ [] ∧ (document.get? path).isSome = true := by
  rcases List.eq_nil_or_concat path with rfl | ⟨front, key, rfl⟩
  · simp [resolve, Resolution.owned]
  · have split : document.get? (front ++ [key]) =
        (document.get? front).bind fun node => node.child? key := by
      simp [get?_append]
    have last : (front ++ [key]).getLast? = some key := List.getLast?_concat
    have above : (front ++ [key]).dropLast = front := List.dropLast_concat
    rw [List.concat_eq_append, split, resolve, last]
    dsimp only
    rw [containerAt?, above]
    cases found : document.get? front with
    | none => simp [Resolution.owned]
    | some node =>
      cases node with
      | null => simp [Resolution.owned, isNull, child?_null]
      | _ => simp [Resolution.owned, Option.filter, isNull, owns]

end Json

end PathQuery
