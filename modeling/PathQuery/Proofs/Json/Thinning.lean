import PathQuery.Proofs.Json.Deletion

/-!
# Documents with members deleted

Deleting members moves nothing: a node that is left stands at its old path, as
the same scalar, as an array of the same length or as an object (`Within`), and
the paths of the deleted members lead nowhere.  Elements are another matter, for
null takes their place.
-/

set_option autoImplicit false

namespace PathQuery

def Path.ToMember (path : Path) : Prop := ∃ front text, path = front ++ [.name text]

namespace Json

/-- Whether two values are the same scalar, arrays of one length, or objects. -/
def Resembles : Json → Json → Prop
  | .arr elements, .arr others => elements.length = others.length
  | .obj _, .obj _ => True
  | value, other => value = other

theorem Resembles.exists_elements {elements : List Json} {other : Json}
    (alike : (arr elements).Resembles other) :
    ∃ others, other = .arr others ∧ elements.length = others.length := by
  cases other with
  | arr others => exact ⟨others, rfl, alike⟩
  | _ => cases alike

theorem Resembles.cases {value other : Json} (alike : value.Resembles other) :
    value = other ∨
      (∃ elements others, value = .arr elements ∧ other = .arr others ∧
        elements.length = others.length) ∨
      ∃ members others, value = .obj members ∧ other = .obj others := by
  cases value with
  | arr elements =>
    obtain ⟨others, rfl, length⟩ := alike.exists_elements
    exact .inr (.inl ⟨elements, others, rfl, rfl, length⟩)
  | obj members =>
    cases other with
    | obj others => exact .inr (.inr ⟨members, others, rfl, rfl⟩)
    | _ => cases alike
  | _ => exact .inl alike

theorem Resembles.isNull_eq {value other : Json} (alike : value.Resembles other) :
    value.isNull = other.isNull := by
  rcases alike.cases with rfl | ⟨elements, others, rfl, rfl, -⟩ | ⟨members, others, rfl, rfl⟩
  all_goals rfl

theorem Resembles.isArray_eq {value other : Json} (alike : value.Resembles other) :
    value.isArray = other.isArray := by
  rcases alike.cases with rfl | ⟨elements, others, rfl, rfl, -⟩ | ⟨members, others, rfl, rfl⟩
  all_goals rfl

theorem without_resembles (paths : List Path) (here : Path) (value : Json) :
    (value.without paths here).Resembles value := by
  cases value with
  | arr elements =>
    rw [without_arr]
    exact List.length_mapIdx
  | obj members =>
    rw [without_obj]
    trivial
  | _ => rfl

/-- Every node of the first document is at its path in the second, and looks alike there. -/
def Within (small big : Json) : Prop :=
  ∀ path node, small.get? path = some node →
    ∃ whole, big.get? path = some whole ∧ node.Resembles whole

theorem Within.isSome {small big : Json} (within : small.Within big) {path : Path}
    (reached : (small.get? path).isSome = true) : (big.get? path).isSome = true := by
  obtain ⟨node, found⟩ := Option.isSome_iff_exists.mp reached
  obtain ⟨whole, found', -⟩ := within path node found
  rw [found', Option.isSome_some]

theorem child?_name_of_isArray {value : Json} (array : value.isArray = true) (text : String) :
    value.child? (.name text) = none := by
  cases value with
  | arr elements => rfl
  | _ => cases array

theorem child?_without_of_listed {paths : List Path} {here : Path} {text : String}
    (listed : here ++ [.name text] ∈ paths) (value : Json) :
    (value.without paths here).child? (.name text) = none := by
  rw [child?_without, if_pos listed]
  split
  · rename_i array
    rw [child?_name_of_isArray array, Option.map_none]
  · rfl

theorem get?_null {path : Path} (further : path ≠ []) : Json.null.get? path = none := by
  obtain ⟨key, rest, rfl⟩ := List.exists_cons_of_ne_nil further
  rw [get?_cons, child?_null, Option.bind_none]

theorem get?_without_of_listed {paths : List Path} {front : Path} {text : String} :
    ∀ {value : Json} {here : Path}, here ++ (front ++ [.name text]) ∈ paths →
      (value.without paths here).get? (front ++ [.name text]) = none := by
  induction front with
  | nil =>
    intro value here listed
    rw [List.nil_append, get?_cons, child?_without_of_listed listed, Option.bind_none]
  | cons key rest ih =>
    intro value here listed
    rw [List.cons_append, get?_cons, child?_without]
    by_cases gone : here ++ [key] ∈ paths
    · rw [if_pos gone]
      split
      · cases value.child? key with
        | none => rfl
        | some child => exact get?_null (by simp)
      · rfl
    · rw [if_neg gone]
      have deeper : here ++ [key] ++ (rest ++ [.name text]) ∈ paths := by simpa using listed
      cases value.child? key with
      | none => rfl
      | some child => exact ih deeper

theorem get?_without_resembles {paths : List Path} (members : ∀ path ∈ paths, path.ToMember)
    {path : Path} : ∀ {value node : Json} {here : Path},
      (value.without paths here).get? path = some node →
      ∃ whole, value.get? path = some whole ∧ node.Resembles whole := by
  induction path with
  | nil =>
    intro value node here found
    rw [get?_nil, Option.some.injEq] at found
    exact ⟨value, get?_nil value, found ▸ without_resembles paths here value⟩
  | cons key rest ih =>
    intro value node here found
    rw [get?_cons, Option.bind_eq_some_iff] at found
    obtain ⟨child, below, found⟩ := found
    by_cases listed : here ++ [key] ∈ paths
    · obtain ⟨front, text, same⟩ := members _ listed
      obtain ⟨-, last⟩ := List.append_inj' same rfl
      rw [List.singleton_inj.mp last] at below listed
      rw [child?_without_of_listed listed] at below
      cases below
    · rw [child?_without, if_neg listed, Option.map_eq_some_iff] at below
      obtain ⟨whole, below, rfl⟩ := below
      rw [get?_cons, below, Option.bind_some]
      exact ih found

theorem within_without {paths : List Path} (members : ∀ path ∈ paths, path.ToMember)
    (document : Json) : (document.without paths []).Within document :=
  fun _ _ found => get?_without_resembles members found

theorem WellFormed.without {value : Json} (wf : value.WellFormed) (paths : List Path) :
    ∀ here : Path, (value.without paths here).WellFormed := by
  induction value using childInduction with
  | step value ih =>
    intro here
    cases value with
    | arr elements =>
      rw [without_arr, WellFormed, elementsWellFormed_iff]
      intro changed listed
      obtain ⟨position, bound, rfl⟩ := List.mem_mapIdx.mp listed
      have member : (Key.index position, elements[position]) ∈ (arr elements).children :=
        mem_children_arr.mpr ⟨position, rfl, List.getElem?_eq_getElem bound⟩
      split
      · trivial
      · exact ih _ _ member (wf.child member) _
    | obj members =>
      rw [without_obj, WellFormed, membersWellFormed_iff, List.map_map]
      refine ⟨(List.filter_sublist.map Prod.fst).nodup wf.1, ?_⟩
      intro changed listed
      obtain ⟨member, inside, rfl⟩ := List.mem_map.mp listed
      have child : (Key.name member.1, member.2) ∈ (obj members).children :=
        mem_children_obj.mpr ⟨member.1, rfl, (List.mem_filter.mp inside).1⟩
      exact ih _ _ child (wf.child child) _
    | _ => trivial

end Json

end PathQuery
