import PathQuery.Proofs.Query.AncestorsFirst

/-!
# Selected paths are there

A step of a plan goes down from a start that is there and holds something, and
what it finds is there again (`Reaches`), unless the step is negated.  Outside of
filters a compiled query negates nothing, so whatever its filters ask for, all
it selects are nodes of the document at or below the path of its anchor, and
resolving their paths finds them (`select_compiled_resolves`).
-/

set_option autoImplicit false

namespace PathQuery

open Evaluate Compile

/-- Where a query starts: at the root behind a dollar sign, and at `current` otherwise. -/
def anchorPath (text : String) (current : Path) : Path :=
  if text.toList.head? = some '$' then [] else current

/-- Whether `path` leads on from a start that holds something, to a node that is there. -/
def Reaches (document : Json) (start path : Path) : Prop :=
  start <+: path ∧ (∃ value, document.get? start = some value ∧ value.isNull = false) ∧
    (document.get? path).isSome = true

section Steps

variable {document : Json} (wf : document.WellFormed) {current : Path}

include wf

theorem reaches_of_mem_expand {step : Step} (plain : step.negated = false) {recursive : Bool}
    {starts : List Path} {path : Path}
    (listed : path ∈ expand document (fun start value =>
      step.visit document recursive start value) starts) :
    ∃ start ∈ starts, Reaches document start path := by
  obtain ⟨start, member, value, found, present, visits⟩ := mem_expand_iff.mp listed
  obtain ⟨below, reached⟩ := reached_of_mem_visit wf found plain visits
  exact ⟨start, member, below, ⟨value, found, present⟩, reached⟩

theorem reaches_of_mem_selectStep {step : Step} (plain : step.negated = false)
    (down : step.movement.isAnchor = false) {paths : List Path} {path : Path}
    (listed : path ∈ selectStep document current step paths) :
    ∃ start ∈ paths, Reaches document start path := by
  rw [selectStep_eq_move] at listed
  cases moves : step.movement with
  | root => rw [moves] at down; cases down
  | current => rw [moves] at down; cases down
  | children =>
    rw [moves] at listed
    exact reaches_of_mem_expand wf plain listed
  | descendants =>
    rw [moves] at listed
    exact reaches_of_mem_expand wf plain listed

theorem reaches_of_mem_selectSteps {rest : List Step} :
    ∀ {step : Step} {paths : List Path} {path : Path},
      (∀ later ∈ step :: rest, later.negated = false ∧ later.movement.isAnchor = false) →
      path ∈ selectSteps document current (step :: rest) paths →
      ∃ start ∈ paths, Reaches document start path := by
  induction rest with
  | nil =>
    intro step paths path go listed
    obtain ⟨plain, down⟩ := go step (List.mem_cons_self ..)
    exact reaches_of_mem_selectStep wf plain down listed
  | cons next rest ih =>
    intro step paths path go listed
    rw [selectSteps] at listed
    obtain ⟨middle, found, further, -, there⟩ :=
      ih (fun later member => go later (List.mem_cons_of_mem _ member)) listed
    obtain ⟨plain, down⟩ := go step (List.mem_cons_self ..)
    obtain ⟨start, member, upper, holds, -⟩ := reaches_of_mem_selectStep wf plain down found
    exact ⟨start, member, upper.trans further, holds, there⟩

end Steps

theorem exists_anchor_of_compile {text : String} {plan : Plan}
    (compiled : compile text = .ok plan) :
    ∃ step rest stop,
      plan = .mk (.anchor (if text.toList.head? = some '$' then .root else .current) ::
        step :: rest) stop ∧
      ∀ later ∈ step :: rest, later.negated = false ∧ later.movement.isAnchor = false := by
  have plain := negated_eq_false_of_compile compiled
  obtain ⟨parsed, read, -, rfl⟩ := compile_eq_ok_iff_read.mp compiled
  obtain ⟨-, first, near, anchored, read', long⟩ := query_eq_ok_iff.mp read
  have behind := accessors_sound _ _ _ _ read'
  obtain ⟨rest, steps, down⟩ := behind.exists_rest long
  have start : first = .anchor (if text.toList.head? = some '$' then .root else .current) := by
    rw [anchor, show (Cursor.start text).rest = text.toList from rfl] at anchored
    split at anchored
    · rename_i whole
      cases anchored
      simp [whole]
    · rename_i whole
      cases anchored
      simp [whole]
    · rename_i other _
      cases anchored
      rw [if_neg]
      intro dollar
      obtain ⟨more, whole⟩ := List.head?_eq_some_iff.mp dollar
      exact other more whole
  rw [steps, start] at plain ⊢
  cases rest with
  | nil =>
    rw [steps] at long
    simp at long
  | cons step rest =>
    refine ⟨step, rest, _, rfl, ?_⟩
    intro later member
    exact ⟨plain later (List.mem_cons_of_mem _ member), down later member⟩

theorem reaches_of_mem_select {text : String} {plan : Plan} (compiled : compile text = .ok plan)
    {document : Json} (wf : document.WellFormed) {current path : Path}
    (listed : path ∈ select (some plan) document current) :
    Reaches document (anchorPath text current) path := by
  obtain ⟨step, rest, stop, rfl, go⟩ := exists_anchor_of_compile compiled
  have begin : selectStep document current
      (.anchor (if text.toList.head? = some '$' then .root else .current)) [] =
        [anchorPath text current] := by
    unfold anchorPath
    split <;> rfl
  rw [select, Plan.select, selectPlan, selectSteps, begin] at listed
  obtain ⟨start, member, reaches⟩ := reaches_of_mem_selectSteps wf go listed
  rw [List.mem_singleton] at member
  rwa [member] at reaches

theorem Json.resolve_of_get? {document value : Json} {front : Path} {key : Key}
    (found : document.get? (front ++ [key]) = some value) :
    ∃ container, document.get? front = some container ∧ container.child? key = some value ∧
      document.resolve (front ++ [key]) = ⟨some container, some key, value⟩ := by
  rw [get?_append, Option.bind_eq_some_iff] at found
  obtain ⟨container, above, child⟩ := found
  rw [get?_cons, Option.bind_eq_some_iff] at child
  obtain ⟨node, child, same⟩ := child
  rw [get?_nil] at same
  cases same
  have present : container.isNull = false := by
    cases container with
    | null => rw [child?_null] at child; cases child
    | _ => rfl
  refine ⟨container, above, child, ?_⟩
  simp [resolve, containerAt?, above, present, child, Option.filter]

/-- What a compiled query selects lies at or below the path of its anchor, and is the root or
a node that resolving its path finds under its last key; and from a current path that leads
nowhere or to null nothing is selected unless the query starts at the root. -/
theorem select_compiled_resolves (text : String) (plan : Plan) (compiled : compile text = .ok plan)
    (document : Json) (wf : document.WellFormed) (current : Path) :
    (∀ path ∈ select (some plan) document current,
      anchorPath text current <+: path ∧
        (path = [] ∨
          (document.resolve path).owned = true ∧
            ∃ front key container value, path = front ++ [key] ∧
              document.get? front = some container ∧ document.get? path = some value ∧
              document.resolve path = ⟨some container, some key, value⟩)) ∧
      (text.toList.head? ≠ some '$' →
        document.get? current = none ∨ document.get? current = some .null →
        select (some plan) document current = []) := by
  constructor
  · intro path listed
    obtain ⟨below, -, there⟩ := reaches_of_mem_select compiled wf listed
    refine ⟨below, ?_⟩
    rcases List.eq_nil_or_concat' path with root | ⟨front, key, rfl⟩
    · exact .inl root
    · obtain ⟨value, found⟩ := Option.isSome_iff_exists.mp there
      obtain ⟨container, above, -, resolved⟩ := Json.resolve_of_get? found
      have owned := (document.owned_resolve_iff (front ++ [key])).mpr ⟨by simp, there⟩
      exact .inr ⟨owned, front, key, container, value, rfl, above, found, resolved⟩
  · intro relative empty
    rw [List.eq_nil_iff_forall_not_mem]
    intro path listed
    obtain ⟨-, ⟨value, found, present⟩, -⟩ := reaches_of_mem_select compiled wf listed
    rw [anchorPath, if_neg relative] at found
    rcases empty with missing | null
    · rw [missing] at found
      cases found
    · rw [null] at found
      cases found
      cases present

theorem select_compiled_resolves_negated_filters :
    let plan : Plan := .mk [.anchor .current, .keyed .children (some (.name "a")) none false,
      .filter .children
        (.mk [.anchor .current, .keyed .children (some (.name "b")) none false,
          .filter .children
            (.mk [.anchor .current, .keyed .children (some (.name "c")) none true] 17) true] 19)
        false] 21
    let document : Json := .obj [("x", .obj [("a",
      .arr [.obj [("b", .obj [("c", .null)])], .obj [("b", .obj [])]])])]
    let path : Path := [.name "x", .name "a", .index 0]
    compile "@.a[?(!@.b[?(!@.c)])]" = .ok plan ∧ document.WellFormed ∧
      path ∈ select (some plan) document [.name "x"] ∧ [.name "x"] <+: path ∧
      (document.resolve path).owned = true ∧ select (some plan) document [.name "y"] = [] := by
  intro plan document path
  have compiled : compile "@.a[?(!@.b[?(!@.c)])]" = .ok plan := rfl
  have wf : document.WellFormed := by
    simp [document, Json.WellFormed, Json.ElementsWellFormed, Json.MembersWellFormed]
  have selected : path ∈ select (some plan) document [.name "x"] := by decide
  obtain ⟨below, either⟩ :=
    (select_compiled_resolves _ plan compiled document wf [.name "x"]).1 path selected
  have owned := (either.resolve_left (by decide)).1
  have missing : document.get? [.name "y"] = none := rfl
  have nothing := (select_compiled_resolves _ plan compiled document wf [.name "y"]).2
    (by decide) (.inl missing)
  exact ⟨compiled, wf, selected, below, owned, nothing⟩

end PathQuery
