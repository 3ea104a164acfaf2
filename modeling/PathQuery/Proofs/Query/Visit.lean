import PathQuery.Proofs.Query.Descent

/-!
# What one step finds from one node

A step goes down from every start by itself: `Step.visit` is what it finds from
one of them, and a step of a plan puts the finds of its starts one behind the
other (`selectStep_eq_expand`, `expand_eq_flatMap`).
-/

set_option autoImplicit false

namespace PathQuery

open Evaluate

/-- What a step keeps of what it proposes below one start. -/
def Step.visit (document : Json) (recursive : Bool) (start : Path) (value : Json) :
    Step → List Path
  | .keyed _ selector comparison negated =>
    (proposed selector recursive start value).filter fun path =>
      PathQuery.passes comparison negated (document.resolve path)
  | .filter _ plan negated =>
    (tested recursive start value).filter fun path =>
      (selectPlan document path plan).isEmpty == negated

theorem selectStep_eq_move (document : Json) (current : Path) (step : Step) (paths : List Path) :
    selectStep document current step paths =
      move document current step.movement (fun recursive start value =>
        step.visit document recursive start value) paths := by
  cases step <;> rw [selectStep] <;> rfl

theorem selectStep_eq_expand (document : Json) (current : Path) {step : Step}
    (goes : step.movement.isAnchor = false) (paths : List Path) :
    selectStep document current step paths =
      expand document (step.visit document (step.movement = .descendants)) paths := by
  rw [selectStep_eq_move]
  cases moves : step.movement with
  | root => rw [moves] at goes; cases goes
  | current => rw [moves] at goes; cases goes
  | children => rfl
  | descendants => rfl

theorem expand_eq_flatMap (document : Json) (visit : Path → Json → List Path)
    (paths : List Path) :
    expand document visit paths = paths.flatMap fun start =>
      match document.get? start with
      | none => []
      | some value => if value.isNull then [] else visit start value := by
  rw [expand]
  apply List.flatMap_congr
  intro start _
  rw [Json.value_resolve]
  cases document.get? start <;> rfl

theorem mem_expand_iff {document : Json} {visit : Path → Json → List Path} {paths : List Path}
    {path : Path} :
    path ∈ expand document visit paths ↔
      ∃ start ∈ paths, ∃ value, document.get? start = some value ∧ value.isNull = false ∧
        path ∈ visit start value := by
  rw [expand_eq_flatMap, List.mem_flatMap]
  refine exists_congr fun start => and_congr_right fun _ => ?_
  cases document.get? start with
  | none => simp
  | some value => cases empty : value.isNull <;> simp [empty]

theorem selectSteps_append (document : Json) (current : Path) (front back : List Step) :
    ∀ paths : List Path, selectSteps document current (front ++ back) paths =
      selectSteps document current back (selectSteps document current front paths) := by
  induction front with
  | nil => intro paths; rfl
  | cons step front ih => intro paths; exact ih _

theorem tested_sublist (recursive : Bool) (start : Path) (value : Json) :
    (tested recursive start value).Sublist
      (start :: (value.descendants recursive).map fun node => start ++ node.path) := by
  rw [tested]
  change List.Sublist _ ([start] ++ _)
  apply List.Sublist.append
  · cases value.isArray <;> simp
  · cases value.isArray || recursive
    · simp
    · exact List.filter_sublist.map _

section Tested

variable {document value : Json} {start : Path} (wf : document.WellFormed)
  (found : document.get? start = some value)

include wf found

theorem mem_tested_iff {recursive : Bool} {path : Path} :
    path ∈ tested recursive start value ↔
      (∃ node, document.get? path = some node ∧ node.isArray = false) ∧
        (path = start ∨
          (value.isArray || recursive) = true ∧ StepsTo recursive start path) := by
  have below : path ∈ ((value.descendants recursive).filter fun node => !node.value.isArray).map
        (fun node => start ++ node.path) ↔
      (∃ node, document.get? path = some node ∧ node.isArray = false) ∧
        StepsTo recursive start path := by
    simp only [List.mem_map, List.mem_filter, Bool.not_eq_true']
    constructor
    · intro listed
      obtain ⟨node, ⟨member, plain⟩, same⟩ := listed
      obtain ⟨steps, reached⟩ := (mem_descendants_iff wf found).mp ⟨node, member, same, rfl⟩
      exact ⟨⟨_, reached, plain⟩, steps⟩
    · intro both
      obtain ⟨⟨target, reached, plain⟩, steps⟩ := both
      obtain ⟨node, member, same, holds⟩ := (mem_descendants_iff wf found).mpr ⟨steps, reached⟩
      exact ⟨node, ⟨member, holds ▸ plain⟩, same⟩
  rw [tested, List.mem_append]
  by_cases array : value.isArray = true
  · have other : ∀ node, document.get? path = some node → node.isArray = false → path ≠ start := by
      intro node reached plain same
      rw [same, found, Option.some.injEq] at reached
      rw [reached, plain] at array
      cases array
    simp only [array, if_true, List.not_mem_nil, false_or, Bool.true_or, true_and, below]
    constructor
    · intro both
      exact ⟨both.1, .inr both.2⟩
    · intro both
      obtain ⟨⟨node, reached, plain⟩, either⟩ := both
      exact ⟨⟨node, reached, plain⟩, either.resolve_left (other node reached plain)⟩
  · have plain : value.isArray = false := by simpa using array
    have here : path = start → ∃ node, document.get? path = some node ∧ node.isArray = false :=
      fun same => ⟨value, by rw [same, found], plain⟩
    cases recursive with
    | false =>
      simp only [plain, Bool.false_eq_true, if_false, List.mem_singleton, Bool.or_false,
        List.not_mem_nil, or_false, false_and]
      exact ⟨fun same => ⟨here same, same⟩, fun both => both.2⟩
    | true =>
      simp only [plain, Bool.false_eq_true, if_false, List.mem_singleton, Bool.or_true, if_true,
        true_and, below]
      constructor
      · intro either
        rcases either with same | ⟨real, steps⟩
        · exact ⟨here same, .inl same⟩
        · exact ⟨real, .inr steps⟩
      · intro both
        exact both.2.imp id fun steps => ⟨both.1, steps⟩

end Tested

section Keys

variable {document value : Json} {start path : Path} (wf : document.WellFormed)

include wf

theorem plain_of_mem_proposed (found : document.get? start = some value)
    {selector : Option Selector} {recursive : Bool}
    (listed : path ∈ proposed selector recursive start value) : path.Plain := by
  have here : start.Plain := Path.plain_of_get? (by rw [found]; rfl)
  have below : ∀ recursive, ∀ node ∈ value.descendants recursive, (start ++ node.path).Plain := by
    intro recursive node member
    have reached := ((mem_descendants_iff wf found).mp ⟨node, member, rfl, rfl⟩).2
    exact Path.plain_of_get? (by rw [reached]; rfl)
  have named : ∀ names, path ∈ namedPaths names recursive start value → path.Plain := by
    intro names listed
    rw [namedPaths, List.mem_append, List.mem_map] at listed
    rcases listed with ⟨name, -, rfl⟩ | listed
    · exact here.concat (by simp)
    · split at listed
      · obtain ⟨node, member, listed⟩ := List.mem_flatMap.mp listed
        obtain ⟨name, -, rfl⟩ := List.mem_map.mp listed
        exact (below true node member).concat (by simp)
      · cases listed
  cases selector with
  | none => cases listed
  | some selector =>
    cases selector with
    | wildcard =>
      obtain ⟨node, member, rfl⟩ := List.mem_map.mp listed
      exact below recursive node member
    | name name => exact named [name] listed
    | names names => exact named names listed
    | index index =>
      rw [proposed, indexedPaths, List.mem_append, Option.mem_toList, Option.map_eq_some_iff]
        at listed
      rcases listed with ⟨position, -, rfl⟩ | listed
      · exact here.concat (by simp)
      · split at listed
        · obtain ⟨node, member, listed⟩ := List.mem_filterMap.mp listed
          obtain ⟨position, -, rfl⟩ := Option.map_eq_some_iff.mp listed
          exact (below true node member).concat (by simp)
        · cases listed

theorem plain_of_mem_selectStep {current : Path} (plain : current.Plain) {step : Step}
    {paths : List Path} (listed : path ∈ selectStep document current step paths) :
    path.Plain := by
  have visited : ∀ recursive, path ∈ expand document (fun start value =>
      step.visit document recursive start value) paths → path.Plain := by
    intro recursive listed
    obtain ⟨start, -, value, found, -, visits⟩ := mem_expand_iff.mp listed
    cases step with
    | keyed => exact plain_of_mem_proposed wf found (List.mem_filter.mp visits).1
    | filter =>
      obtain ⟨node, reached, -⟩ :=
        ((mem_tested_iff wf found).mp (List.mem_filter.mp visits).1).1
      exact Path.plain_of_get? (by rw [reached]; rfl)
  rw [selectStep_eq_move] at listed
  cases moves : step.movement with
  | root =>
    rw [moves] at listed
    rw [List.mem_singleton.mp listed]
    exact List.forall_mem_nil _
  | current =>
    rw [moves] at listed
    rwa [List.mem_singleton.mp listed]
  | children =>
    rw [moves] at listed
    exact visited false listed
  | descendants =>
    rw [moves] at listed
    exact visited true listed

theorem plain_of_mem_selectSteps {current : Path} (plain : current.Plain) {steps : List Step} :
    ∀ {paths : List Path}, (∀ path ∈ paths, path.Plain) →
      path ∈ selectSteps document current steps paths → path.Plain := by
  induction steps with
  | nil => intro paths starts listed; exact starts path listed
  | cons step rest ih =>
    intro paths _ listed
    exact ih (fun _ => plain_of_mem_selectStep wf plain) listed

/-- No selected path holds a truth value. -/
theorem plain_of_mem_select (plan : Option Plan) (listed : path ∈ select plan document []) :
    path.Plain := by
  cases plan with
  | none => cases listed
  | some plan =>
    cases plan
    exact plain_of_mem_selectSteps wf (List.forall_mem_nil _) (List.forall_mem_nil _) listed

end Keys

end PathQuery
