import PathQuery.Proofs.Query.Nested
import PathQuery.Proofs.Query.Visit

/-!
# Selecting below a node

A plan that never goes back to the root sees nothing of a document but the node
it starts from: it selects in the whole document what it selects in the subtree
of that node, with the path of the node in front.  Nothing is asked of the
document, so the paths that a negated step proposes and that lead nowhere are
treated alike in both.
-/

set_option autoImplicit false

namespace PathQuery

open Evaluate

section Below

variable {document value : Json} {front : Path} (found : document.get? front = some value)

include found

theorem Json.get?_below (path : Path) : document.get? (front ++ path) = value.get? path := by
  rw [Json.get?_append, found, Option.bind_some]

/-- Below a node only the way from there on matters; the node itself is resolved
differently, for there it is the root. -/
theorem Json.resolve_below {path : Path} (further : path ≠ []) :
    document.resolve (front ++ path) = value.resolve path := by
  obtain ⟨above, key, rfl⟩ := (List.eq_nil_or_concat' path).resolve_left further
  have container : document.containerAt? (front ++ (above ++ [key])) =
      value.containerAt? (above ++ [key]) := by
    rw [containerAt?, containerAt?, ← List.append_assoc, List.dropLast_concat,
      List.dropLast_concat, Json.get?_below found]
  simp only [Json.resolve, container, List.getLast?_append, List.getLast?_singleton, Option.some_or]

end Below

theorem Json.path_ne_nil_of_mem_preorder {value : Json} :
    ∀ {path : Path} {node : Descendant}, node ∈ value.preorder path → node.path ≠ [] := by
  induction value using childInduction with
  | step value ih =>
    intro path node listed
    rw [preorder_eq_flatMap, List.mem_flatMap] at listed
    obtain ⟨⟨key, child⟩, member, listed⟩ := listed
    rcases List.mem_cons.mp listed with rfl | below
    · simp [childNode]
    · exact ih key child member below

theorem Json.path_ne_nil_of_mem_descendants {value : Json} {recursive : Bool} {node : Descendant}
    (listed : node ∈ value.descendants recursive) : node.path ≠ [] := by
  cases recursive with
  | false =>
    rw [descendants_false, List.mem_map] at listed
    obtain ⟨entry, -, rfl⟩ := listed
    simp [childNode]
  | true =>
    rw [descendants_true] at listed
    exact path_ne_nil_of_mem_preorder listed

theorem namedPaths_append (names : List String) (recursive : Bool) (front path : Path)
    (value : Json) :
    namedPaths names recursive (front ++ path) value =
      (namedPaths names recursive path value).map (front ++ ·) := by
  cases recursive <;> simp [namedPaths, List.map_flatMap, Function.comp_def]

theorem indexedPaths_append (index : Int) (recursive : Bool) (front path : Path) (value : Json) :
    indexedPaths index recursive (front ++ path) value =
      (indexedPaths index recursive path value).map (front ++ ·) := by
  have here :
      ((position? index value).map fun position => front ++ path ++ [.index position]).toList =
      ((position? index value).map fun position => path ++ [Key.index position]).toList.map
        (front ++ ·) := by
    cases position? index value <;> simp
  cases recursive <;>
    simp [indexedPaths, List.map_filterMap, Option.map_map, Function.comp_def, ← here]

theorem proposed_append (selector : Option Selector) (recursive : Bool) (front path : Path)
    (value : Json) :
    proposed selector recursive (front ++ path) value =
      (proposed selector recursive path value).map (front ++ ·) := by
  cases selector with
  | none => rfl
  | some selector =>
    cases selector with
    | name text => exact namedPaths_append [text] recursive front path value
    | names texts => exact namedPaths_append texts recursive front path value
    | index position => exact indexedPaths_append position recursive front path value
    | wildcard => simp [proposed, Function.comp_def]

theorem ne_nil_of_mem_proposed {selector : Option Selector} {recursive : Bool} {path place : Path}
    {value : Json} (listed : place ∈ proposed selector recursive path value) : place ≠ [] := by
  have named : ∀ names, place ∈ namedPaths names recursive path value → place ≠ [] := by
    rintro names member rfl
    cases recursive <;> simp [namedPaths] at member
  cases selector with
  | none => cases listed
  | some selector =>
    cases selector with
    | name text => exact named [text] listed
    | names texts => exact named texts listed
    | index position =>
      rintro rfl
      cases recursive <;> simp [proposed, indexedPaths] at listed
    | wildcard =>
      obtain ⟨node, member, rfl⟩ := List.mem_map.mp listed
      exact List.append_ne_nil_of_right_ne_nil _ (Json.path_ne_nil_of_mem_descendants member)

theorem tested_append (recursive : Bool) (front path : Path) (value : Json) :
    tested recursive (front ++ path) value =
      (tested recursive path value).map (front ++ ·) := by
  cases array : value.isArray <;> cases recursive <;> simp [tested, array, Function.comp_def]

section Selected

variable {document value : Json} {front : Path} (found : document.get? front = some value)

include found

theorem Step.visit_below (step : Step)
    (inner : ∀ movement plan negated, step = .filter movement plan negated → ∀ path : Path,
      selectPlan document (front ++ path) plan = (selectPlan value path plan).map (front ++ ·))
    (recursive : Bool) (path : Path) (node : Json) :
    step.visit document recursive (front ++ path) node =
      (step.visit value recursive path node).map (front ++ ·) := by
  cases step with
  | keyed movement selector comparison negated =>
    rw [Step.visit, Step.visit, proposed_append, List.filter_map]
    congr 1
    apply List.filter_congr
    intro place listed
    rw [Function.comp_apply, Json.resolve_below found (ne_nil_of_mem_proposed listed)]
  | filter movement plan negated =>
    rw [Step.visit, Step.visit, tested_append, List.filter_map]
    congr 1
    apply List.filter_congr
    intro place _
    rw [Function.comp_apply, inner movement plan negated rfl, List.isEmpty_map]

theorem expand_below {step : Step} {recursive : Bool}
    (alike : ∀ path node, step.visit document recursive (front ++ path) node =
      (step.visit value recursive path node).map (front ++ ·)) (paths : List Path) :
    expand document (fun start node => step.visit document recursive start node)
        (paths.map (front ++ ·)) =
      (expand value (fun start node => step.visit value recursive start node) paths).map
        (front ++ ·) := by
  rw [expand_eq_flatMap, expand_eq_flatMap, List.flatMap_map, List.map_flatMap]
  apply List.flatMap_congr
  intro path _
  rw [Json.get?_below found]
  cases value.get? path with
  | none => rfl
  | some node =>
    cases empty : node.isNull with
    | true => simp [empty]
    | false => simp [empty, alike]

theorem selectSteps_below {current : Path} (steps : List Step)
    (relative : ∀ step ∈ steps, step.movement ≠ .root)
    (inner : ∀ movement plan negated, Step.filter movement plan negated ∈ steps → ∀ path : Path,
      selectPlan document (front ++ path) plan = (selectPlan value path plan).map (front ++ ·)) :
    ∀ paths : List Path,
      selectSteps document (front ++ current) steps (paths.map (front ++ ·)) =
        (selectSteps value current steps paths).map (front ++ ·) := by
  induction steps with
  | nil => intro paths; rfl
  | cons step rest ih =>
    intro paths
    have alike := step.visit_below found fun movement plan negated same =>
      inner movement plan negated (same ▸ List.mem_cons_self ..)
    have one : selectStep document (front ++ current) step (paths.map (front ++ ·)) =
        (selectStep value current step paths).map (front ++ ·) := by
      rw [selectStep_eq_move, selectStep_eq_move]
      cases moves : step.movement with
      | root => exact absurd moves (relative step (List.mem_cons_self ..))
      | current => rfl
      | children => exact expand_below found (alike false) paths
      | descendants => exact expand_below found (alike true) paths
    rw [selectSteps, selectSteps, one]
    exact ih (fun later member => relative later (List.mem_cons_of_mem _ member))
      (fun movement plan negated member =>
        inner movement plan negated (List.mem_cons_of_mem _ member)) _

theorem selectPlan_below (plan : Plan)
    (relative : plan.EveryStep fun step => step.movement ≠ .root) :
    ∀ path : Path,
      selectPlan document (front ++ path) plan = (selectPlan value path plan).map (front ++ ·) := by
  induction plan using Plan.innerInduction with
  | step steps stop ih =>
    intro path
    have every := Plan.stepsEvery_iff.mp relative
    rw [selectPlan, selectPlan]
    exact selectSteps_below found steps (fun step member => (every step member).self)
      (fun movement plan negated member =>
        ih movement plan negated member (every _ member).inner) []

end Selected

/-- A plan that goes back to the root on no level selects from a node what it selects in the
subtree of that node, in the same order and as often. -/
theorem Plan.select_below (plan : Plan)
    (relative : plan.EveryStep fun step => step.movement ≠ .root)
    (document : Json) (start : Path) (value : Json) (found : document.get? start = some value) :
    plan.select document start = (plan.select value []).map (start ++ ·) := by
  have below := selectPlan_below found plan relative []
  rwa [List.append_nil] at below

theorem Plan.select_below_missing_members :
    let value : Json := .arr [.obj [("b", .null)], .obj [("c", .bool true)]]
    let document : Json := .obj [("a", value), ("c", .null)]
    let plan : Plan := .mk [.anchor .current,
      .filter .descendants
        (.mk [.anchor .current, .keyed .children (some (.name "b")) none true] 0) false,
      .keyed .children (some (.name "d")) none true] 0
    (plan.EveryStep fun step => step.movement ≠ .root) ∧
      document.get? [.name "a"] = some value ∧
      plan.select document [.name "a"] =
        [[.name "a", .index 1, .name "d"], [.name "a", .index 1, .name "c", .name "d"]] := by
  intro value document plan
  have relative : plan.EveryStep fun step => step.movement ≠ .root := by
    simp [plan, Plan.EveryStep, Plan.StepsEvery, Plan.StepEvery, Step.anchor, Step.movement]
  have found : document.get? [.name "a"] = some value := rfl
  refine ⟨relative, found, ?_⟩
  rw [plan.select_below relative document _ value found]
  decide

end PathQuery
