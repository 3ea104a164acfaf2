import PathQuery.Proofs.Json.Thinning
import PathQuery.Proofs.Query.Nested
import PathQuery.Proofs.Query.Visit
import PathQuery.Prune.Payload

/-!
# Pruning leaves nothing to select

A plan that negates nothing and compares no texts finds nothing new in a
document that has lost members (`mem_selectPlan_of_within`).  If it ends in a
name it selects only members, so pruning only deletes members; what it would
select afterwards it has selected before, and that is gone.
-/

set_option autoImplicit false

namespace PathQuery

open Evaluate

/-- Whether an operator looks at the texts of values, and so into containers. -/
def Operator.readsText : Operator → Bool
  | .startsWith => true
  | .endsWith => true
  | .contains => true
  | _ => false

/-- A step that is not negated and compares no texts. -/
def Step.Monotone : Step → Prop
  | .keyed _ _ comparison negated =>
    negated = false ∧ ∀ c, comparison = some c → c.operator.readsText = false
  | .filter _ _ negated => negated = false

theorem Json.compare_container {value : Json} (container : value.isContainer = true)
    (operand : Json) :
    value.equal operand = false ∧ value.less operand = false ∧ operand.less value = false ∧
      value.ordered operand = false := by
  cases value with
  | arr elements => cases operand <;> exact ⟨rfl, rfl, rfl, rfl⟩
  | obj members => cases operand <;> exact ⟨rfl, rfl, rfl, rfl⟩
  | _ => cases container

theorem Operator.holds_container {op : Operator} (blind : op.readsText = false) {value : Json}
    (container : value.isContainer = true) (operand : Json) :
    op.holds value operand = decide (op = .notEqual) := by
  obtain ⟨equal, less, greater, ordered⟩ := Json.compare_container container operand
  cases op with
  | startsWith => cases blind
  | endsWith => cases blind
  | contains => cases blind
  | _ => simp [holds, equal, less, greater, ordered]

theorem Operator.holds_resembles {op : Operator} (blind : op.readsText = false)
    {value other : Json} (alike : value.Resembles other) (operand : Json) :
    op.holds value operand = op.holds other operand := by
  rcases alike.cases with rfl | ⟨elements, others, rfl, rfl, -⟩ | ⟨members, others, rfl, rfl⟩
  · rfl
  · rw [holds_container blind rfl, holds_container blind rfl]
  · rw [holds_container blind rfl, holds_container blind rfl]

section Within

variable {small big : Json} (within : small.Within big)

include within

theorem satisfies_of_within {comparison : Option Comparison}
    (blind : ∀ c, comparison = some c → c.operator.readsText = false) {path : Path}
    (kept : satisfies small comparison path = true) : satisfies big comparison path = true := by
  cases comparison with
  | none => rfl
  | some comparison =>
    rw [satisfies, Option.any_eq_true] at kept ⊢
    obtain ⟨node, found, holds⟩ := kept
    obtain ⟨whole, found', alike⟩ := within path node found
    have same := Operator.holds_resembles (blind comparison rfl) alike comparison.operand
    refine ⟨whole, found', ?_⟩
    rwa [Comparison.holds, ← same]

theorem Selector.picks_of_within (selector : Selector) {path : Path}
    (picked : selector.picks small path = true) : selector.picks big path = true := by
  cases selector with
  | index position =>
    rw [picks] at picked ⊢
    split at picked
    · rename_i elements found
      obtain ⟨whole, found', alike⟩ := within _ _ found
      obtain ⟨others, rfl, length⟩ := alike.exists_elements
      rw [length] at picked
      rw [found']
      exact picked
    · cases picked
  | _ => exact picked

theorem mem_expand_of_within {step : Step} {recursive : Bool}
    (visits : ∀ start value whole path, small.get? start = some value →
      big.get? start = some whole → value.Resembles whole →
      path ∈ step.visit small recursive start value → path ∈ step.visit big recursive start whole)
    {starts others : List Path} (more : starts ⊆ others) {path : Path}
    (listed : path ∈ expand small (fun start value => step.visit small recursive start value)
      starts) :
    path ∈ expand big (fun start value => step.visit big recursive start value) others := by
  obtain ⟨start, member, value, found, present, listed⟩ := mem_expand_iff.mp listed
  obtain ⟨whole, found', alike⟩ := within start value found
  exact mem_expand_iff.mpr ⟨start, more member, whole, found', alike.isNull_eq ▸ present,
    visits start value whole path found found' alike listed⟩

variable (wf : small.WellFormed) (wf' : big.WellFormed)

include wf wf'

theorem mem_visit_of_within {step : Step} (monotone : step.Monotone)
    (inner : ∀ movement plan negated, step = .filter movement plan negated → ∀ current path,
      path ∈ selectPlan small current plan → path ∈ selectPlan big current plan)
    {start : Path} {value whole : Json} (found : small.get? start = some value)
    (found' : big.get? start = some whole) (alike : value.Resembles whole) {recursive : Bool}
    {path : Path} (visits : path ∈ step.visit small recursive start value) :
    path ∈ step.visit big recursive start whole := by
  cases step with
  | keyed movement selector comparison negated =>
    obtain ⟨rfl, blind⟩ := monotone
    cases selector with
    | none => cases visits
    | some selector =>
      rw [Step.visit, mem_filter_proposed_iff wf found] at visits
      rw [Step.visit, mem_filter_proposed_iff wf' found']
      obtain ⟨steps, reached, picked, kept⟩ := visits
      exact ⟨steps, within.isSome reached, selector.picks_of_within within picked,
        satisfies_of_within within blind kept⟩
  | filter movement plan negated =>
    have plain : negated = false := monotone
    subst plain
    rw [Step.visit, List.mem_filter, mem_tested_iff wf found, beq_false, Bool.not_eq_true',
      List.isEmpty_eq_false_iff_exists_mem] at visits
    rw [Step.visit, List.mem_filter, mem_tested_iff wf' found', beq_false, Bool.not_eq_true',
      List.isEmpty_eq_false_iff_exists_mem]
    obtain ⟨⟨⟨node, reached, array⟩, place⟩, inside, selects⟩ := visits
    obtain ⟨other, reached', alike'⟩ := within path node reached
    rw [alike.isArray_eq] at place
    rw [alike'.isArray_eq] at array
    have selects' := inner movement plan false rfl path inside selects
    exact ⟨⟨⟨other, reached', array⟩, place⟩, inside, selects'⟩

theorem mem_selectSteps_of_within (current : Path) (steps : List Step)
    (monotone : ∀ step ∈ steps, step.Monotone)
    (inner : ∀ movement plan negated, Step.filter movement plan negated ∈ steps → ∀ current path,
      path ∈ selectPlan small current plan → path ∈ selectPlan big current plan) :
    ∀ {paths others : List Path}, paths ⊆ others →
      selectSteps small current steps paths ⊆ selectSteps big current steps others := by
  induction steps with
  | nil => intro paths others more; exact more
  | cons step rest ih =>
    intro paths others more
    have visits : ∀ (recursive : Bool) start value whole path, small.get? start = some value →
        big.get? start = some whole → value.Resembles whole →
        path ∈ step.visit small recursive start value →
        path ∈ step.visit big recursive start whole := by
      intro recursive start value whole path found found' alike
      exact mem_visit_of_within within wf wf' (monotone step (List.mem_cons_self ..))
        (fun movement plan negated same =>
          inner movement plan negated (same ▸ List.mem_cons_self ..)) found found' alike
    have one : selectStep small current step paths ⊆ selectStep big current step others := by
      intro path listed
      rw [selectStep_eq_move] at listed ⊢
      cases moves : step.movement with
      | root =>
        rw [moves] at listed
        exact listed
      | current =>
        rw [moves] at listed
        exact listed
      | children =>
        rw [moves] at listed
        exact mem_expand_of_within within (visits _) more listed
      | descendants =>
        rw [moves] at listed
        exact mem_expand_of_within within (visits _) more listed
    rw [selectSteps, selectSteps]
    exact ih (fun later member => monotone later (List.mem_cons_of_mem _ member))
      (fun movement plan negated member =>
        inner movement plan negated (List.mem_cons_of_mem _ member)) one

/-- What a plan of such steps selects in a document without some members it also selects in
the whole. -/
theorem mem_selectPlan_of_within (plan : Plan) (monotone : plan.EveryStep Step.Monotone) :
    ∀ current path, path ∈ selectPlan small current plan → path ∈ selectPlan big current plan := by
  induction plan using Plan.innerInduction with
  | step steps stop ih =>
    intro current path
    have every := Plan.stepsEvery_iff.mp monotone
    rw [selectPlan, selectPlan]
    exact @mem_selectSteps_of_within _ _ within wf wf' current steps
      (fun step member => (every step member).self)
      (fun movement plan negated member =>
        ih movement plan negated member (every _ member).inner) [] [] (List.Subset.refl _) path

end Within

/-! ## Plans that end in a name -/

def Selector.isNamed : Selector → Bool
  | .name _ => true
  | .names _ => true
  | _ => false

/-- Whether the last step of a plan goes down by a name, or by one of several. -/
def Plan.EndsInName (plan : Plan) : Prop :=
  ∃ front movement selector comparison negated,
    plan.steps = front ++ [.keyed movement (some selector) comparison negated] ∧
      movement.isAnchor = false ∧ selector.isNamed = true

theorem Selector.toMember_of_picks {selector : Selector} (named : selector.isNamed = true)
    {document : Json} {path : Path} (picked : selector.picks document path = true) :
    path.ToMember := by
  have last : ∀ text, path.getLast? = some (.name text) → path.ToMember := by
    intro text found
    obtain ⟨front, same⟩ := List.getLast?_eq_some_iff.mp found
    exact ⟨front, text, same⟩
  cases selector with
  | name text => exact last text (of_decide_eq_true picked)
  | names texts =>
    obtain ⟨text, -, found⟩ := List.any_eq_true.mp picked
    exact last text (of_decide_eq_true found)
  | _ => cases named

section Ending

variable {plan : Plan} (named : plan.EndsInName) (monotone : plan.EveryStep Step.Monotone)
  {document : Json} (wf : document.WellFormed)

include named monotone wf

theorem member_of_mem_select {current path : Path} (listed : path ∈ plan.select document current) :
    path.ToMember ∧ (document.get? path).isSome = true := by
  obtain ⟨steps, stop⟩ := plan
  obtain ⟨front, movement, selector, comparison, negated, shape, down, byName⟩ := named
  obtain rfl : steps = _ := shape
  have last : Step.Monotone (.keyed movement (some selector) comparison negated) :=
    (Plan.stepsEvery_iff.mp monotone _ (by simp)).self
  obtain ⟨rfl, -⟩ := last
  have found : ∀ recursive starts, path ∈ expand document (fun start value =>
      (Step.keyed movement (some selector) comparison false).visit document recursive start value)
        starts → path.ToMember ∧ (document.get? path).isSome = true := by
    intro recursive starts member
    obtain ⟨start, -, value, reached, -, visits⟩ := mem_expand_iff.mp member
    obtain ⟨-, there, picked, -⟩ := (mem_filter_proposed_iff wf reached ..).mp visits
    exact ⟨selector.toMember_of_picks byName picked, there⟩
  rw [Plan.select, selectPlan, selectSteps_append, selectSteps, selectSteps,
    selectStep_eq_move] at listed
  cases movement with
  | root => cases down
  | current => cases down
  | children => exact found _ _ listed
  | descendants => exact found _ _ listed

theorem select_prune_eq_nil : plan.select (prune (some plan) document).1 [] = [] := by
  have pruned : (prune (some plan) document).1 = document.without (plan.select document []) [] := by
    rw [prune, document.removeAll_eq_removedCount wf fun _ => plain_of_mem_select wf (some plan)]
    rfl
  have within : (document.without (plan.select document []) []).Within document :=
    Json.within_without (fun path listed => (member_of_mem_select named monotone wf listed).1)
      document
  have wf' := wf.without (plan.select document []) []
  rw [pruned, List.eq_nil_iff_forall_not_mem]
  intro path listed
  have before : path ∈ plan.select document [] :=
    mem_selectPlan_of_within within wf' wf plan monotone [] path listed
  obtain ⟨⟨front, text, rfl⟩, there⟩ := member_of_mem_select named monotone wf' listed
  rw [Json.get?_without_of_listed before] at there
  cases there

end Ending

/-- After pruning by a plan that ends in a name, negates nothing and compares no texts, the
plan selects nothing any more, and pruning again changes nothing. -/
theorem prune_leaves_nothing (plan : Plan) (named : plan.EndsInName)
    (monotone : plan.EveryStep Step.Monotone) (document : Json) (wf : document.WellFormed) :
    select (some plan) (prune (some plan) document).1 [] = [] ∧
      prune (some plan) (prune (some plan) document).1 = ((prune (some plan) document).1, 0) := by
  have nothing : select (some plan) (prune (some plan) document).1 [] = [] :=
    select_prune_eq_nil named monotone wf
  refine ⟨nothing, ?_⟩
  rw [prune, nothing]
  rfl

/-- Members `b` above and below each other, and a filter that asks for what is deleted. -/
theorem prune_leaves_nothing_nested :
    let plan : Plan := .mk [.anchor .current,
      .filter .children (.mk [.anchor .current,
        .keyed .descendants (some (.name "b")) (some ⟨.notEqual, .null⟩) false] 0) false,
      .keyed .descendants (some (.names ["b", "c"])) none false] 0
    let document : Json :=
      .obj [("a", .arr [.obj [("b", .obj [("b", .bool true)]), ("c", .null)], .null]),
        ("c", .obj [])]
    plan.EndsInName ∧ plan.EveryStep Step.Monotone ∧ document.WellFormed ∧
      prune (some plan) document = (.obj [("a", .arr [.obj [], .null])], 3) ∧
      select (some plan) (.obj [("a", .arr [.obj [], .null])]) [] = [] := by
  intro plan document
  have named : plan.EndsInName := ⟨[_, _], _, _, _, _, rfl, rfl, rfl⟩
  have monotone : plan.EveryStep Step.Monotone := by
    simp [plan, Plan.EveryStep, Plan.StepsEvery, Plan.StepEvery, Step.Monotone, Step.anchor,
      Operator.readsText]
  have wf : document.WellFormed := by
    simp [document, Json.WellFormed, Json.ElementsWellFormed, Json.MembersWellFormed]
  have selected : select (some plan) document [] =
      [[.name "c"], [.name "a", .index 0, .name "b"], [.name "a", .index 0, .name "c"],
        [.name "a", .index 0, .name "b", .name "b"]] := by decide
  have pruned : prune (some plan) document = (.obj [("a", .arr [.obj [], .null])], 3) := by
    rw [prune, document.removeAll_eq_removedCount wf fun _ => plain_of_mem_select wf (some plan),
      selected]
    refine Prod.ext ?_ ?_
    · simp [document, Json.without, Json.elementsWithout, Json.membersWithout]
    · decide +kernel
  refine ⟨named, monotone, wf, pruned, ?_⟩
  have nothing := (prune_leaves_nothing plan named monotone document wf).1
  rwa [pruned] at nothing

end PathQuery
