import PathQuery.Proofs.Json.Deletion
import PathQuery.Proofs.Query.Compile
import PathQuery.Proofs.Query.Visit
import PathQuery.Prune.Payload

/-!
# Ancestors come first

However the paths of a plan were found, a path to a node stands in front of the
paths to the nodes below it (`AncestorsFirst`).  Every step keeps that order: a
path is either found where the path below it was found, or from a start further
up, which has come before (`visit_across`).  So pruning meets the topmost
selected nodes while they are there, and removes nothing else.
-/

set_option autoImplicit false

namespace PathQuery

open Evaluate

/-- In front of every occurrence of a path stand all listed paths above it. -/
def AncestorsFirst (paths : List Path) : Prop :=
  ∀ front path back, paths = front ++ path :: back →
    ∀ above ∈ paths, ProperPrefix above path → above ∈ front

/-- Whether no listed path other than the root leads to a node above. -/
def Topmost (paths : List Path) (path : Path) : Prop :=
  path ≠ [] ∧ ∀ above ∈ paths, above ≠ [] → ¬ ProperPrefix above path

instance (paths : List Path) (path : Path) : Decidable (Topmost paths path) :=
  inferInstanceAs (Decidable (_ ∧ ∀ above ∈ paths, _))

theorem ancestorsFirst_singleton (path : Path) : AncestorsFirst [path] := by
  intro front other back split above member proper
  rw [List.singleton_eq_append_iff] at split
  rcases split with ⟨rfl, tail⟩ | ⟨-, nothing⟩
  · rw [List.cons.injEq] at tail
    rw [List.mem_singleton] at member
    exact absurd (member.trans tail.1.symm) proper.2
  · cases nothing

theorem AncestorsFirst.earlier {paths : List Path} (ordered : AncestorsFirst paths)
    {above path : Path} (higher : above ∈ paths) (listed : path ∈ paths)
    (proper : ProperPrefix above path) : Earlier paths above path := by
  obtain ⟨front, back, split, new⟩ := List.eq_append_cons_of_mem listed
  have before := ordered front path back split above higher proper
  have position := List.idxOf_lt_length_iff.mpr before
  refine ⟨higher, ?_⟩
  rw [split, List.idxOf_append_of_mem before, List.idxOf_append_of_notMem new]
  omega

theorem ancestorsFirst_of_pairwise {paths : List Path}
    (ordered : paths.Pairwise fun first second => ¬ ProperPrefix second first) :
    AncestorsFirst paths := by
  intro front path back split above member proper
  rw [split, List.mem_append, List.mem_cons] at member
  rw [split, List.pairwise_append, List.pairwise_cons] at ordered
  rcases member with before | same | behind
  · exact before
  · exact absurd same proper.2
  · exact absurd proper (ordered.2.1.1 above behind)

theorem exists_of_flatMap_eq_append_cons {starts : List Path} {visit : Path → List Path} :
    ∀ {front : List Path} {path : Path} {back : List Path},
      starts.flatMap visit = front ++ path :: back →
      ∃ before start after found rest, starts = before ++ start :: after ∧
        visit start = found ++ path :: rest ∧ front = before.flatMap visit ++ found := by
  induction starts with
  | nil => intro front path back split; simp at split
  | cons start starts ih =>
    intro front path back split
    rw [List.flatMap_cons, List.append_eq_append_iff] at split
    rcases split with ⟨found, rfl, later⟩ | ⟨rest, here, later⟩
    · obtain ⟨before, other, after, inner, rest, rfl, visited, rfl⟩ := ih later
      exact ⟨start :: before, other, after, inner, rest, rfl, visited, by simp⟩
    · cases rest with
      | nil =>
        have still : starts.flatMap visit = [] ++ path :: back := later.symm
        obtain ⟨before, other, after, inner, rest, rfl, visited, nothing⟩ := ih still
        refine ⟨start :: before, other, after, inner, rest, rfl, visited, ?_⟩
        rw [List.flatMap_cons, List.append_assoc, ← nothing]
        simpa using here.symm
      | cons next rest =>
        obtain ⟨rfl, -⟩ := List.cons.inj later
        exact ⟨[], start, starts, front, rest, rfl, here, rfl⟩

/-- Visiting starts in order keeps the order, if what one start finds is in order, and what
lies above a find is found from the same start or from a start above it. -/
theorem AncestorsFirst.flatMap {starts : List Path} (ordered : AncestorsFirst starts)
    {visit : Path → List Path}
    (inside : ∀ start, (visit start).Pairwise fun first second => ¬ ProperPrefix second first)
    (across : ∀ start other path above, path ∈ visit start → above ∈ visit other →
      ProperPrefix above path → above ∈ visit start ∨ ProperPrefix other start) :
    AncestorsFirst (starts.flatMap visit) := by
  intro front path back split above higher proper
  obtain ⟨before, start, after, found, rest, whole, here, rfl⟩ :=
    exists_of_flatMap_eq_append_cons split
  obtain ⟨other, listed, finds⟩ := List.mem_flatMap.mp higher
  rw [List.mem_append]
  rcases across start other path above (by simp [here]) finds proper with near | further
  · exact .inr (ancestorsFirst_of_pairwise (inside start) found path rest here above near proper)
  · have first := ordered before start after whole other listed further
    exact .inl (List.mem_flatMap.mpr ⟨other, first, finds⟩)

section Visit

variable {document value : Json} {start : Path} (wf : document.WellFormed)
  (found : document.get? start = some value)

theorem StepsTo.prefix_or {recursive : Bool} {path above : Path}
    (steps : StepsTo recursive start path) (proper : ProperPrefix above path) :
    above <+: start ∨ StepsTo recursive start above := by
  obtain ⟨front, key, rfl⟩ := steps.1.exists_eq_concat
  obtain ⟨back, direct⟩ := stepsTo_concat_iff.mp steps
  have short : above <+: front := proper.of_concat
  by_cases flat : recursive = false
  · exact .inl (direct flat ▸ short)
  · rcases List.prefix_or_prefix_of_prefix short back with upper | lower
    · exact .inl upper
    · by_cases same : start = above
      · exact .inl (same ▸ List.prefix_rfl)
      · exact .inr ⟨⟨lower, same⟩, fun not => absurd not flat⟩

include wf found

theorem pairwise_descendants (recursive : Bool) :
    (start :: (value.descendants recursive).map fun node => start ++ node.path).Pairwise
      fun first second => ¬ ProperPrefix second first := by
  rw [List.pairwise_cons]
  constructor
  · intro path listed above
    obtain ⟨node, member, rfl⟩ := List.mem_map.mp listed
    have shorter := above.length_lt
    rw [List.length_append] at shorter
    omega
  · cases recursive with
    | false =>
      rw [Json.descendants_false, List.map_map]
      apply List.pairwise_of_forall_mem_list
      intro first here second there above
      obtain ⟨entry, -, rfl⟩ := List.mem_map.mp here
      obtain ⟨other, -, rfl⟩ := List.mem_map.mp there
      have shorter := above.length_lt
      simp [Json.childNode] at shorter
    | true =>
      rw [Json.descendants_true, ← Json.map_path_preorder]
      exact Json.pairwise_preorder_paths (wf.get? found) start

theorem pairwise_tested (recursive : Bool) :
    (tested recursive start value).Pairwise fun first second => ¬ ProperPrefix second first :=
  (pairwise_descendants wf found recursive).sublist (tested_sublist recursive start value)

theorem pairwise_flatMap_sites (recursive : Bool) (selector : Selector) :
    ((sites recursive start value).flatMap (pickedAt selector)).Pairwise fun first second =>
      ¬ ProperPrefix second first := by
  have places : ((sites recursive start value).map Prod.fst).Pairwise fun first second =>
      ¬ ProperPrefix second first := by
    cases recursive with
    | false => simp [sites]
    | true => exact Json.pairwise_selfAndBelow (wf.get? found) start
  rw [List.pairwise_map] at places
  rw [List.pairwise_flatMap]
  constructor
  · intro site member
    apply List.pairwise_of_forall_mem_list
    intro first here second there above
    obtain ⟨key, -, rfl⟩ := List.mem_map.mp here
    obtain ⟨other, -, rfl⟩ := List.mem_map.mp there
    have shorter := above.length_lt
    simp at shorter
  · refine places.imp ?_
    intro site other apart first here second there above
    obtain ⟨key, -, rfl⟩ := List.mem_map.mp here
    obtain ⟨last, -, rfl⟩ := List.mem_map.mp there
    have inner : ProperPrefix other.1 (other.1 ++ [last]) := properPrefix_append (by simp)
    exact apart (inner.extend above.of_concat)

/-- What one start finds for a step that is not negated never goes back up. -/
theorem pairwise_visit (recursive : Bool) (step : Step) (plain : step.negated = false) :
    (step.visit document recursive start value).Pairwise fun first second =>
      ¬ ProperPrefix second first := by
  cases step with
  | filter movement plan negated =>
    rw [Step.visit]
    exact (pairwise_tested wf found recursive).filter _
  | keyed movement selector comparison negated =>
    have positive : negated = false := plain
    subst positive
    rw [Step.visit]
    cases selector with
    | none => simp [proposed]
    | some selector =>
      by_cases star : selector = .wildcard
      · subst star
        rw [proposed]
        have below := (List.pairwise_cons.mp (pairwise_descendants wf found recursive)).2
        exact below.filter _
      · rw [filter_proposed found (.inl star) fun place kept =>
          ((passes_resolve_iff document comparison place).mp kept).2.1]
        exact (pairwise_flatMap_sites wf found recursive selector).filter _

theorem reached_of_mem_visit {recursive : Bool} {step : Step} (plain : step.negated = false)
    {path : Path} (visits : path ∈ step.visit document recursive start value) :
    start <+: path ∧ (document.get? path).isSome = true := by
  cases step with
  | filter movement plan negated =>
    obtain ⟨⟨node, reached, -⟩, place⟩ :=
      (mem_tested_iff wf found).mp (List.mem_filter.mp visits).1
    rw [reached, Option.isSome_some]
    rcases place with same | ⟨-, steps⟩
    · exact ⟨same ▸ List.prefix_rfl, rfl⟩
    · exact ⟨steps.1.1, rfl⟩
  | keyed movement selector comparison negated =>
    have positive : negated = false := plain
    subst positive
    cases selector with
    | none => simp [Step.visit, proposed] at visits
    | some selector =>
      have kept := (mem_filter_proposed_iff wf found comparison selector path).mp visits
      exact ⟨kept.1.1.1, kept.2.1⟩

theorem visit_across {recursive : Bool} {step : Step} (plain : step.negated = false)
    {path above : Path} (visits : path ∈ step.visit document recursive start value)
    {other : Path} {elsewhere : Json} (found' : document.get? other = some elsewhere)
    (finds : above ∈ step.visit document recursive other elsewhere)
    (proper : ProperPrefix above path) :
    above ∈ step.visit document recursive start value ∨ ProperPrefix other start := by
  have upper := (reached_of_mem_visit wf found' plain finds).1
  cases step with
  | filter movement plan negated =>
    rw [Step.visit, List.mem_filter, mem_tested_iff wf found] at visits ⊢
    rw [Step.visit, List.mem_filter, mem_tested_iff wf found'] at finds
    obtain ⟨⟨real, -⟩, test⟩ := finds
    obtain ⟨⟨-, same | ⟨open', steps⟩⟩, -⟩ := visits
    · exact .inr (same ▸ proper.prefix_trans upper)
    · rcases steps.prefix_or proper with short | further
      · by_cases same : above = start
        · exact .inl ⟨⟨real, .inl same⟩, test⟩
        · exact .inr (ProperPrefix.prefix_trans upper ⟨short, same⟩)
      · exact .inl ⟨⟨real, .inr ⟨open', further⟩⟩, test⟩
  | keyed movement selector comparison negated =>
    have positive : negated = false := plain
    subst positive
    cases selector with
    | none => simp [Step.visit, proposed] at visits
    | some selector =>
      rw [Step.visit, mem_filter_proposed_iff wf found] at visits ⊢
      rw [Step.visit, mem_filter_proposed_iff wf found'] at finds
      rcases visits.1.prefix_or proper with short | further
      · exact .inr (finds.1.1.extend short)
      · exact .inl ⟨further, finds.2⟩

end Visit

theorem AncestorsFirst.expand {document : Json} (wf : document.WellFormed) {step : Step}
    (plain : step.negated = false) (recursive : Bool) {starts : List Path}
    (ordered : AncestorsFirst starts) :
    AncestorsFirst (Evaluate.expand document (fun start value =>
      step.visit document recursive start value) starts) := by
  rw [expand_eq_flatMap]
  apply ordered.flatMap
  · intro start
    split
    · exact .nil
    · rename_i value found
      split
      · exact .nil
      · exact pairwise_visit wf found recursive step plain
  · intro start other path above visits finds proper
    split at finds
    · simp at finds
    · rename_i elsewhere found'
      split at visits
      · simp at visits
      · rename_i value found
        split at finds
        · simp at finds
        · split at visits
          · simp at visits
          · rename_i present
            rw [if_neg present]
            exact visit_across wf found plain visits found' finds proper

theorem AncestorsFirst.selectStep {document : Json} (wf : document.WellFormed) (current : Path)
    {step : Step} (plain : step.negated = false) {paths : List Path}
    (ordered : AncestorsFirst paths) :
    AncestorsFirst (Evaluate.selectStep document current step paths) := by
  rw [selectStep_eq_move]
  cases step.movement with
  | root => exact ancestorsFirst_singleton []
  | current => exact ancestorsFirst_singleton current
  | children => exact ordered.expand wf plain false
  | descendants => exact ordered.expand wf plain true

theorem AncestorsFirst.selectSteps {document : Json} (wf : document.WellFormed) (current : Path)
    (steps : List Step) (plain : ∀ step ∈ steps, step.negated = false) :
    ∀ {paths : List Path}, AncestorsFirst paths →
      AncestorsFirst (Evaluate.selectSteps document current steps paths) := by
  induction steps with
  | nil => intro paths ordered; exact ordered
  | cons step rest ih =>
    intro paths ordered
    rw [Evaluate.selectSteps]
    exact ih (fun later member => plain later (List.mem_cons_of_mem _ member))
      (ordered.selectStep wf current (plain step (List.mem_cons_self ..)))

theorem exists_of_mem_expand {document : Json} (wf : document.WellFormed) {step : Step}
    (plain : step.negated = false) {recursive : Bool} {starts : List Path} {path : Path}
    (listed : path ∈ expand document (fun start value =>
      step.visit document recursive start value) starts) :
    (document.get? path).isSome = true := by
  rw [expand_eq_flatMap] at listed
  obtain ⟨start, -, visits⟩ := List.mem_flatMap.mp listed
  split at visits
  · simp at visits
  · rename_i value found
    split at visits
    · simp at visits
    · exact (reached_of_mem_visit wf found plain visits).2

theorem exists_of_mem_selectStep {document : Json} (wf : document.WellFormed) {current : Path}
    {step : Step} (plain : step.negated = false) {paths : List Path} {path : Path}
    (listed : path ∈ selectStep document current step paths) :
    path = current ∨ (document.get? path).isSome = true := by
  rw [selectStep_eq_move] at listed
  cases moves : step.movement with
  | root =>
    rw [moves, move, List.mem_singleton] at listed
    simp [listed]
  | current =>
    rw [moves, move, List.mem_singleton] at listed
    exact .inl listed
  | children =>
    rw [moves] at listed
    exact .inr (exists_of_mem_expand wf plain listed)
  | descendants =>
    rw [moves] at listed
    exact .inr (exists_of_mem_expand wf plain listed)

theorem exists_of_mem_selectSteps {document : Json} (wf : document.WellFormed) {current : Path}
    (steps : List Step) (plain : ∀ step ∈ steps, step.negated = false) :
    ∀ {paths : List Path} {path : Path},
      (∀ start ∈ paths, start = current ∨ (document.get? start).isSome = true) →
      path ∈ selectSteps document current steps paths →
      path = current ∨ (document.get? path).isSome = true := by
  induction steps with
  | nil => intro paths path real listed; exact real path listed
  | cons step rest ih =>
    intro paths path _ listed
    rw [selectSteps] at listed
    have positive := plain step (List.mem_cons_self ..)
    exact ih (fun later member => plain later (List.mem_cons_of_mem _ member))
      (fun start found => exists_of_mem_selectStep wf positive found) listed

/-! ## Pruning -/

theorem removeAll_count_of_ancestorsFirst {document : Json} (wf : document.WellFormed)
    {paths : List Path} (ordered : AncestorsFirst paths)
    (real : ∀ path ∈ paths, (document.get? path).isSome = true) :
    (document.removeAll paths).2 = (paths.toFinset.filter (Topmost paths)).card := by
  have same : paths.toFinset.filter (Json.Counted document paths) =
      paths.toFinset.filter (Topmost paths) := by
    apply Finset.filter_congr
    intro path listed
    rw [List.mem_toFinset] at listed
    constructor
    · intro counted
      refine ⟨counted.1, ?_⟩
      intro above higher below proper
      exact counted.2.2 above below proper (ordered.earlier higher listed proper)
    · intro topmost
      refine ⟨topmost.1, real path listed, ?_⟩
      intro above below proper earlier
      exact topmost.2 above earlier.1 below proper
  have plain : ∀ path ∈ paths, path.Plain := fun path listed =>
    Path.plain_of_get? (real path listed)
  rw [document.removeAll_eq_removedCount wf plain, Json.removedCount, same]

theorem Plan.select_ancestorsFirst {document : Json} (wf : document.WellFormed) (current : Path)
    {plan : Plan} (plain : ∀ step ∈ plan.steps, step.negated = false) :
    AncestorsFirst (plan.select document current) := by
  cases plan with
  | mk steps stop =>
    have start : AncestorsFirst [] := by
      intro front path back split
      simp at split
    rw [Plan.select, selectPlan]
    exact start.selectSteps wf current steps plain

theorem Plan.prune_count {document : Json} (wf : document.WellFormed) {plan : Plan}
    (plain : ∀ step ∈ plan.steps, step.negated = false) :
    (prune (some plan) document).2 =
      ((plan.select document []).toFinset.filter (Topmost (plan.select document []))).card := by
  apply removeAll_count_of_ancestorsFirst wf (plan.select_ancestorsFirst wf [] plain)
  intro path listed
  cases plan with
  | mk steps stop =>
    rw [Plan.select, selectPlan] at listed
    rcases exists_of_mem_selectSteps wf steps plain (by simp) listed with root | real
    · rw [root, Json.get?_nil, Option.isSome_some]
    · exact real

/-- What a compiled query selects comes with ancestors first, and pruning removes exactly the
topmost of the selected nodes other than the root. -/
theorem select_compiled_ancestors_first (text : String) (plan : Plan)
    (compiled : compile text = .ok plan) (document : Json) (wf : document.WellFormed) :
    (∀ current above path, above ∈ select (some plan) document current →
        path ∈ select (some plan) document current → ProperPrefix above path →
        (select (some plan) document current).idxOf above <
          (select (some plan) document current).idxOf path) ∧
      (prune (some plan) document).2 =
        ((select (some plan) document []).toFinset.filter
          (Topmost (select (some plan) document []))).card := by
  have plain := negated_eq_false_of_compile compiled
  constructor
  · intro current above path higher listed proper
    exact ((plan.select_ancestorsFirst wf current plain).earlier higher listed proper).2
  · exact Plan.prune_count wf plain

theorem select_compiled_ancestors_first_nested :
    let document : Json := .obj [("a", .arr [.obj [("b", .obj [("b", .bool true)])]])]
    let plan : Plan := .mk [.anchor .root, .keyed .descendants (some (.name "b")) none false] 4
    let outer : Path := [.name "a", .index 0, .name "b"]
    compile "$..b" = .ok plan ∧ document.WellFormed ∧
      (select (some plan) document []).idxOf outer <
        (select (some plan) document []).idxOf (outer ++ [.name "b"]) ∧
      (prune (some plan) document).2 = 1 := by
  intro document plan outer
  have compiled : compile "$..b" = .ok plan := rfl
  have wf : document.WellFormed := by
    simp [document, Json.WellFormed, Json.ElementsWellFormed, Json.MembersWellFormed]
  obtain ⟨first, count⟩ := select_compiled_ancestors_first "$..b" plan compiled document wf
  refine ⟨compiled, wf, ?_, ?_⟩
  · exact first [] outer (outer ++ [.name "b"]) (by decide) (by decide) (by decide)
  · rw [count]
    decide

end PathQuery
