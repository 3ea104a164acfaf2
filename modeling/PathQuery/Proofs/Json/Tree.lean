import Mathlib.Data.List.Infix
import Mathlib.Data.List.Nodup
import PathQuery.Json.Resolve

/-!
# Documents as trees

A container is the list of its children: what holds of arrays and of objects
alike is said of `Json.children`, and induction on a document is induction on
its children (`childInduction`).  In a well-formed document the children are
exactly what `child?` finds, so a path that leads somewhere leads to one place.
-/

set_option autoImplicit false

namespace PathQuery

/-- `above` leads to a node that the way along `path` passes before its end. -/
def ProperPrefix (above path : Path) : Prop := above <+: path ∧ above ≠ path

instance (above path : Path) : Decidable (ProperPrefix above path) :=
  inferInstanceAs (Decidable (_ ∧ _))

theorem properPrefix_cons_iff {key other : Key} {front rest : Path} :
    ProperPrefix (key :: front) (other :: rest) ↔ key = other ∧ ProperPrefix front rest := by
  simp only [ProperPrefix, List.cons_prefix_cons, ne_eq, List.cons.injEq]
  constructor
  · intro given
    obtain ⟨⟨same, above⟩, proper⟩ := given
    exact ⟨same, above, fun equal => proper ⟨same, equal⟩⟩
  · intro given
    obtain ⟨same, above, proper⟩ := given
    exact ⟨⟨same, above⟩, fun both => proper both.2⟩

theorem not_properPrefix_nil (front : Path) : ¬ ProperPrefix front [] :=
  fun ⟨above, proper⟩ => proper (List.prefix_nil.mp above)

theorem properPrefix_append {path rest : Path} (further : rest ≠ []) :
    ProperPrefix path (path ++ rest) :=
  ⟨List.prefix_append .., fun same => further (List.self_eq_append_right.mp same)⟩

theorem ProperPrefix.length_lt {above path : Path} (proper : ProperPrefix above path) :
    above.length < path.length := by
  have short := proper.1.length_le
  have different : above.length ≠ path.length := fun same =>
    proper.2 (proper.1.eq_of_length same)
  omega

theorem ProperPrefix.extend {above middle path : Path} (proper : ProperPrefix above middle)
    (below : middle <+: path) : ProperPrefix above path := by
  refine ⟨proper.1.trans below, ?_⟩
  intro same
  have shorter := proper.length_lt
  have longer := below.length_le
  rw [same] at shorter
  omega

theorem ProperPrefix.prefix_trans {above middle path : Path} (upper : above <+: middle)
    (proper : ProperPrefix middle path) : ProperPrefix above path := by
  refine ⟨upper.trans proper.1, ?_⟩
  intro same
  have shorter := proper.length_lt
  have longer := upper.length_le
  rw [same] at longer
  omega

theorem ProperPrefix.ne_nil {above path : Path} (proper : ProperPrefix above path) : path ≠ [] :=
  fun nothing => not_properPrefix_nil above (nothing ▸ proper)

theorem ProperPrefix.exists_eq_concat {above path : Path} (proper : ProperPrefix above path) :
    ∃ (front : Path) (key : Key), path = front ++ [key] :=
  (List.eq_nil_or_concat' path).resolve_left proper.ne_nil

theorem ProperPrefix.of_concat {above front : Path} {key : Key}
    (proper : ProperPrefix above (front ++ [key])) : above <+: front := by
  rcases List.prefix_concat_iff.mp proper.1 with same | shorter
  · exact absurd same proper.2
  · exact shorter

namespace Json

theorem mem_children_arr {elements : List Json} {key : Key} {child : Json} :
    (key, child) ∈ (arr elements).children ↔
      ∃ position : Nat, key = .index position ∧ elements[position]? = some child := by
  simp only [children, List.mem_mapIdx, Prod.mk.injEq, List.getElem?_eq_some_iff]
  constructor
  · intro given
    obtain ⟨position, bound, rfl, rfl⟩ := given
    exact ⟨position, rfl, bound, rfl⟩
  · intro given
    obtain ⟨position, rfl, bound, rfl⟩ := given
    exact ⟨position, bound, rfl, rfl⟩

theorem mem_children_obj {members : List (String × Json)} {key : Key} {child : Json} :
    (key, child) ∈ (obj members).children ↔
      ∃ text : String, key = .name text ∧ (text, child) ∈ members := by
  simp only [children, List.mem_map, Prod.mk.injEq, Prod.exists]
  constructor
  · intro given
    obtain ⟨text, value, member, rfl, rfl⟩ := given
    exact ⟨text, rfl, member⟩
  · intro given
    obtain ⟨text, rfl, member⟩ := given
    exact ⟨text, child, member, rfl, rfl⟩

theorem sizeOf_lt_of_mem_children {value child : Json} {key : Key}
    (member : (key, child) ∈ value.children) : sizeOf child < sizeOf value := by
  cases value with
  | arr elements =>
    obtain ⟨position, -, found⟩ := mem_children_arr.mp member
    have smaller := List.sizeOf_lt_of_mem (List.mem_of_getElem? found)
    simp only [arr.sizeOf_spec]
    omega
  | obj members =>
    obtain ⟨text, -, found⟩ := mem_children_obj.mp member
    have smaller := List.sizeOf_lt_of_mem found
    simp only [obj.sizeOf_spec, Prod.mk.sizeOf_spec] at smaller ⊢
    omega
  | _ => simp [children] at member

theorem childInduction {motive : Json → Prop}
    (step : ∀ value, (∀ key child, (key, child) ∈ value.children → motive child) → motive value)
    (value : Json) : motive value :=
  step value fun _ child _ => childInduction step child
termination_by sizeOf value
decreasing_by exact sizeOf_lt_of_mem_children ‹_›

theorem kindInduction {motive : Json → Prop}
    (scalar : ∀ value, value.isContainer = false → motive value)
    (arr : ∀ elements, (∀ value ∈ elements, motive value) → motive (.arr elements))
    (obj : ∀ members, (∀ member ∈ members, motive member.2) → motive (.obj members))
    (value : Json) : motive value := by
  induction value using childInduction with
  | step value ih =>
    cases value with
    | arr elements =>
      refine arr elements fun value listed => ?_
      obtain ⟨position, found⟩ := List.mem_iff_getElem?.mp listed
      exact ih _ _ (mem_children_arr.mpr ⟨position, rfl, found⟩)
    | obj members =>
      exact obj members fun member listed =>
        ih _ _ (mem_children_obj.mpr ⟨member.1, rfl, listed⟩)
    | _ => exact scalar _ rfl

theorem elementsWellFormed_iff (elements : List Json) :
    ElementsWellFormed elements ↔ ∀ value ∈ elements, value.WellFormed := by
  induction elements with
  | nil => simp [ElementsWellFormed]
  | cons value rest ih => simp [ElementsWellFormed, ih]

theorem membersWellFormed_iff (members : List (String × Json)) :
    MembersWellFormed members ↔ ∀ member ∈ members, member.2.WellFormed := by
  induction members with
  | nil => simp [MembersWellFormed]
  | cons member rest ih => simp [MembersWellFormed, ih]

theorem WellFormed.child {value child : Json} {key : Key} (wf : value.WellFormed)
    (member : (key, child) ∈ value.children) : child.WellFormed := by
  cases value with
  | arr elements =>
    obtain ⟨position, -, found⟩ := mem_children_arr.mp member
    rw [WellFormed, elementsWellFormed_iff] at wf
    exact wf child (List.mem_of_getElem? found)
  | obj members =>
    obtain ⟨text, -, found⟩ := mem_children_obj.mp member
    rw [WellFormed, membersWellFormed_iff] at wf
    exact wf.2 (text, child) found
  | _ => simp [children] at member

theorem nodup_keys_mapIdx (elements : List Json) :
    ((elements.mapIdx fun position value => (Key.index position, value)).map Prod.fst).Nodup := by
  rw [List.nodup_iff_getElem?_ne_getElem?]
  intro i j less bound
  simp only [List.length_map, List.length_mapIdx] at bound
  have lower : i < elements.length := Nat.lt_trans less bound
  simp only [List.getElem?_map, List.getElem?_mapIdx, List.getElem?_eq_getElem lower,
    List.getElem?_eq_getElem bound, Option.map_some, ne_eq, Option.some.injEq, Key.index.injEq]
  omega

theorem WellFormed.nodup_keys {value : Json} (wf : value.WellFormed) :
    (value.children.map Prod.fst).Nodup := by
  cases value with
  | arr elements => exact nodup_keys_mapIdx elements
  | obj members =>
    have keys : (obj members).children.map Prod.fst = (members.map Prod.fst).map Key.name := by
      simp [children]
    rw [keys]
    exact wf.1.map fun _ _ same => Key.name.inj same
  | _ => simp [children]

theorem lookup_eq_some_iff {members : List (String × Json)} {text : String} {child : Json}
    (distinct : (members.map Prod.fst).Nodup) :
    members.lookup text = some child ↔ (text, child) ∈ members := by
  induction members with
  | nil => simp
  | cons member rest ih =>
    obtain ⟨name, value⟩ := member
    rw [List.map_cons, List.nodup_cons] at distinct
    by_cases same : text = name
    · subst same
      have absent : (text, child) ∉ rest := fun found =>
        distinct.1 (List.mem_map.mpr ⟨(text, child), found, rfl⟩)
      simp [absent, eq_comm]
    · have different : (text == name) = false := by simpa using same
      simp [List.lookup_cons, different, ih distinct.2, same]

theorem child?_eq_some_iff {value child : Json} {key : Key} (wf : value.WellFormed) :
    value.child? key = some child ↔ (key, child) ∈ value.children := by
  cases value with
  | arr elements =>
    rw [mem_children_arr]
    cases key with
    | index position =>
      cases position with
      | ofNat position =>
        constructor
        · intro found
          exact ⟨position, rfl, found⟩
        · intro given
          obtain ⟨other, same, found⟩ := given
          have equal : position = other := Int.ofNat.inj (Key.index.inj same)
          subst equal
          exact found
      | negSucc position =>
        constructor
        · intro found
          cases found
        · intro given
          obtain ⟨other, same, -⟩ := given
          cases same
    | _ => simp [child?]
  | obj members =>
    rw [mem_children_obj]
    cases key with
    | name text =>
      rw [child?, lookup_eq_some_iff wf.1]
      simp
    | _ => simp [child?]
  | _ => simp [child?, children]

theorem owns_iff_mem_keys {value : Json} {key : Key} (wf : value.WellFormed) :
    value.owns key = true ↔ key ∈ value.children.map Prod.fst := by
  rw [owns, Option.isSome_iff_exists]
  simp only [child?_eq_some_iff wf, List.mem_map, Prod.exists, exists_and_right, exists_eq_right]

theorem WellFormed.get? {document value : Json} {path : Path} (wf : document.WellFormed)
    (found : document.get? path = some value) : value.WellFormed := by
  induction path generalizing document with
  | nil =>
    rw [get?_nil, Option.some.injEq] at found
    exact found ▸ wf
  | cons key rest ih =>
    rw [get?_cons, Option.bind_eq_some_iff] at found
    obtain ⟨child, below, found⟩ := found
    exact ih (wf.child ((child?_eq_some_iff wf).mp below)) found

/-- The value that a resolved path reads: what is there, and null where nothing is. -/
theorem value_resolve (document : Json) (path : Path) :
    (document.resolve path).value = (document.get? path).getD .null := by
  rcases List.eq_nil_or_concat path with rfl | ⟨front, key, rfl⟩
  · simp [resolve]
  · rw [List.concat_eq_append, get?_append, resolve, List.getLast?_append_of_ne_nil _ (by simp)]
    simp only [List.getLast?_singleton, containerAt?, List.dropLast_concat]
    cases document.get? front with
    | none => rfl
    | some node => cases node <;> simp [Option.filter, isNull, child?_null]

end Json

namespace Path

/-- Whether a path consists of names and numbers. -/
def Plain (path : Path) : Prop := ∀ key ∈ path, ∀ value, key ≠ .flag value

theorem Plain.concat {path : Path} (plain : path.Plain) {key : Key}
    (told : ∀ value, key ≠ .flag value) : (path ++ [key]).Plain :=
  List.forall_mem_append.mpr ⟨plain, List.forall_mem_singleton.mpr told⟩

theorem Plain.map_withoutFlag {path : Path} (plain : path.Plain) :
    path.map Key.withoutFlag = path := by
  have kept : path.map Key.withoutFlag = path.map id := by
    apply List.map_congr_left
    intro key listed
    cases key with
    | flag value => exact (plain _ listed value rfl).elim
    | _ => rfl
  rw [kept, List.map_id]

theorem plain_of_get? {document : Json} {path : Path}
    (found : (document.get? path).isSome = true) : path.Plain := by
  induction path generalizing document with
  | nil => exact List.forall_mem_nil _
  | cons key path ih =>
    rw [Json.get?_cons, Option.isSome_bind, Option.any_eq_true_iff_get] at found
    obtain ⟨step, later⟩ := found
    refine List.forall_mem_cons.mpr ⟨?_, ih later⟩
    rintro value rfl
    simp [Json.child?] at step

end Path

end PathQuery
