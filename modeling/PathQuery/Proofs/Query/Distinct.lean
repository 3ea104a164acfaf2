import PathQuery.Proofs.Query.AncestorsFirst
import PathQuery.Proofs.Query.Keyed

/-!
# No path is found twice

Starts of which none lies above another (`Apart`) find different paths, since a
find lies below the start it was found from.  A step to the children keeps
starts apart, filters of arrays included.  A step to all descendants does not:
it leaves paths that are distinct, and behind it only keys keep them so, since a
filter finds an element of an array both from the array and from the element
itself.  So a query that asks for all descendants once at most, and has no
filter behind that, finds no path twice (`select_compiled_nodup`).
-/

set_option autoImplicit false

namespace PathQuery

open Evaluate Compile Grammar

def Diverge (first second : Path) : Prop := ¬ first <+: second ∧ ¬ second <+: first

def Apart (paths : List Path) : Prop := paths.Pairwise Diverge

theorem Diverge.below {first second path other : Path} (diverge : Diverge first second)
    (below : first <+: path) (below' : second <+: other) : Diverge path other := by
  constructor
  · intro above
    exact (List.prefix_or_prefix_of_prefix (below.trans above) below').elim diverge.1 diverge.2
  · intro above
    exact (List.prefix_or_prefix_of_prefix below (below'.trans above)).elim diverge.1 diverge.2

theorem Diverge.ne {first second : Path} (diverge : Diverge first second) : first ≠ second :=
  fun same => diverge.1 (same ▸ List.prefix_rfl)

theorem apart_singleton (path : Path) : Apart [path] := List.pairwise_singleton ..

theorem apart_of_length_eq {paths : List Path} (once : paths.Nodup) {length : Nat}
    (level : ∀ path ∈ paths, path.length = length) : Apart paths := by
  refine once.imp_of_mem ?_
  intro first second here there different
  have same : first.length = second.length := (level first here).trans (level second there).symm
  exact ⟨fun above => different (above.eq_of_length same),
    fun above => different (above.eq_of_length same.symm).symm⟩

section Starts

variable {starts : List Path} (apart : Apart starts) {visit : Path → List Path}
  (below : ∀ start ∈ starts, ∀ path ∈ visit start, start <+: path)

include apart below

theorem Apart.flatMap (inside : ∀ start ∈ starts, Apart (visit start)) :
    Apart (starts.flatMap visit) := by
  rw [Apart, List.pairwise_flatMap]
  refine ⟨inside, apart.imp_of_mem ?_⟩
  intro start other member member' diverge path finds path' finds'
  exact diverge.below (below start member path finds) (below other member' path' finds')

theorem Apart.nodup_flatMap (inside : ∀ start ∈ starts, (visit start).Nodup) :
    (starts.flatMap visit).Nodup := by
  rw [List.nodup_flatMap]
  refine ⟨inside, apart.imp_of_mem ?_⟩
  intro start other member member' diverge path finds finds'
  exact (diverge.below (below start member path finds) (below other member' path finds')).ne rfl

end Starts

def Step.Distinct : Step → Prop
  | .keyed _ (some selector) _ _ => selector.Distinct
  | _ => True

section Visit

variable {document value : Json} {start : Path} (wf : document.WellFormed)
  (found : document.get? start = some value)

include wf found

theorem nodup_descendants (recursive : Bool) :
    (start :: (value.descendants recursive).map fun node => start ++ node.path).Nodup := by
  rw [List.nodup_cons]
  constructor
  · intro listed
    obtain ⟨node, member, same⟩ := List.mem_map.mp listed
    exact ((mem_descendants_iff wf found).mp ⟨node, member, same, rfl⟩).1.1.2 rfl
  · cases recursive with
    | false =>
      rw [childPaths_eq]
      exact nodup_flatMap_pickedAt wf found false (trivial : Selector.wildcard.Distinct)
    | true =>
      rw [Json.descendants_true, ← Json.map_path_preorder]
      exact Json.nodup_preorder_paths (wf.get? found) start

theorem nodup_visit (recursive : Bool) {step : Step} (plain : step.negated = false)
    (distinct : step.Distinct) : (step.visit document recursive start value).Nodup := by
  cases step with
  | filter movement plan negated =>
    exact ((nodup_descendants wf found recursive).sublist (tested_sublist ..)).filter _
  | keyed movement selector comparison negated =>
    have positive : negated = false := plain
    subst positive
    rw [Step.visit]
    cases selector with
    | none => simp [proposed]
    | some selector =>
      by_cases star : selector = .wildcard
      · subst star
        exact (List.nodup_cons.mp (nodup_descendants wf found recursive)).2.filter _
      · rw [filter_proposed found (.inl star) fun place kept =>
          ((passes_resolve_iff document comparison place).mp kept).2.1]
        exact (nodup_flatMap_pickedAt wf found recursive distinct).filter _

theorem stepsTo_of_mem_visit {recursive : Bool} {step : Step} (plain : step.negated = false)
    (keyed : step.isKeyed = true) {path : Path}
    (visits : path ∈ step.visit document recursive start value) :
    StepsTo recursive start path := by
  cases step with
  | filter => cases keyed
  | keyed movement selector comparison negated =>
    have positive : negated = false := plain
    subst positive
    cases selector with
    | none => simp [Step.visit, proposed] at visits
    | some selector =>
      exact ((mem_filter_proposed_iff wf found comparison selector path).mp visits).1

theorem apart_visit {step : Step} (plain : step.negated = false) (distinct : step.Distinct) :
    Apart (step.visit document false start value) := by
  have once := nodup_visit wf found false plain distinct
  have child : ∀ {path : Path}, StepsTo false start path → path.length = start.length + 1 := by
    intro path steps
    obtain ⟨front, key, rfl⟩ := steps.1.exists_eq_concat
    have same := (stepsTo_concat_iff.mp steps).2 rfl
    rw [same, List.length_append, List.length_singleton]
  cases step with
  | keyed movement selector comparison negated =>
    exact apart_of_length_eq once fun path visits =>
      child (stepsTo_of_mem_visit wf found plain rfl visits)
  | filter movement plan negated =>
    have level : ∀ path ∈ (Step.filter movement plan negated).visit document false start value,
        path.length = if value.isArray then start.length + 1 else start.length := by
      intro path visits
      obtain ⟨⟨node, reached, plain⟩, place⟩ :=
        (mem_tested_iff wf found).mp (List.mem_filter.mp visits).1
      rcases place with rfl | ⟨array, steps⟩
      · rw [found] at reached
        cases reached
        rw [plain]
        rfl
      · rw [Bool.or_false] at array
        rw [if_pos array, child steps]
    exact apart_of_length_eq once level

end Visit

def Step.finds (document : Json) (recursive : Bool) (start : Path) (step : Step) : List Path :=
  match document.get? start with
  | none => []
  | some value => if value.isNull then [] else step.visit document recursive start value

theorem expand_eq_flatMap_finds (document : Json) (recursive : Bool) (step : Step)
    (paths : List Path) :
    expand document (step.visit document recursive) paths =
      paths.flatMap fun start => step.finds document recursive start :=
  expand_eq_flatMap document _ paths

theorem Step.finds_cases (document : Json) (recursive : Bool) (start : Path) (step : Step) :
    step.finds document recursive start = [] ∨ ∃ value, document.get? start = some value ∧
      step.finds document recursive start = step.visit document recursive start value := by
  rw [finds]
  split
  · exact .inl rfl
  · rename_i value found
    split
    · exact .inl rfl
    · exact .inr ⟨value, found, rfl⟩

section Steps

variable {document : Json} (wf : document.WellFormed) {step : Step}
  (plain : step.negated = false)

include wf plain

theorem below_of_mem_finds {recursive : Bool} {start path : Path}
    (listed : path ∈ step.finds document recursive start) : start <+: path := by
  rcases step.finds_cases document recursive start with nothing | ⟨value, found, same⟩
  · rw [nothing] at listed
    cases listed
  · rw [same] at listed
    exact (reached_of_mem_visit wf found plain listed).1

theorem dropLast_of_mem_finds (keyed : step.isKeyed = true) {start path : Path}
    (listed : path ∈ step.finds document false start) : path.dropLast = start := by
  rcases step.finds_cases document false start with nothing | ⟨value, found, same⟩
  · rw [nothing] at listed
    cases listed
  · rw [same] at listed
    exact (stepsTo_of_mem_visit wf found plain keyed listed).2 rfl

variable (distinct : step.Distinct)

include distinct

theorem nodup_finds (recursive : Bool) (start : Path) :
    (step.finds document recursive start).Nodup := by
  rcases step.finds_cases document recursive start with nothing | ⟨value, found, same⟩
  · rw [nothing]
    exact .nil
  · rw [same]
    exact nodup_visit wf found recursive plain distinct

theorem apart_finds (start : Path) : Apart (step.finds document false start) := by
  rcases step.finds_cases document false start with nothing | ⟨value, found, same⟩
  · rw [nothing]
    exact .nil
  · rw [same]
    exact apart_visit wf found plain distinct

variable {paths : List Path} (current : Path)

/-- Starts that are apart stay so, unless all descendants are asked for. -/
theorem Apart.selectStep (level : step.movement ≠ .descendants) (apart : Apart paths) :
    Apart (Evaluate.selectStep document current step paths) := by
  rw [selectStep_eq_move]
  cases moves : step.movement with
  | root => exact apart_singleton []
  | current => exact apart_singleton current
  | descendants => exact absurd moves level
  | children =>
    rw [move, expand_eq_flatMap_finds]
    exact apart.flatMap (fun _ _ _ => below_of_mem_finds wf plain) fun start _ =>
      apart_finds wf plain distinct start

theorem Apart.nodup_selectStep (apart : Apart paths) :
    (Evaluate.selectStep document current step paths).Nodup := by
  have expanded : ∀ recursive, (expand document (step.visit document recursive) paths).Nodup := by
    intro recursive
    rw [expand_eq_flatMap_finds]
    exact apart.nodup_flatMap (fun _ _ _ => below_of_mem_finds wf plain) fun start _ =>
      nodup_finds wf plain distinct recursive start
  rw [selectStep_eq_move]
  cases step.movement with
  | root => exact List.nodup_singleton []
  | current => exact List.nodup_singleton current
  | children => exact expanded false
  | descendants => exact expanded true

theorem nodup_selectStep_keyed (level : step.movement ≠ .descendants)
    (keyed : step.isKeyed = true) (once : paths.Nodup) :
    (selectStep document current step paths).Nodup := by
  rw [selectStep_eq_move]
  cases moves : step.movement with
  | root => exact List.nodup_singleton []
  | current => exact List.nodup_singleton current
  | descendants => exact absurd moves level
  | children =>
    rw [move, expand_eq_flatMap_finds, List.nodup_flatMap]
    refine ⟨fun start _ => nodup_finds wf plain distinct false start, once.imp ?_⟩
    intro start other different path finds finds'
    have first := dropLast_of_mem_finds wf plain keyed finds
    exact different (first.symm.trans (dropLast_of_mem_finds wf plain keyed finds'))

end Steps

/-! ## Queries with one descent -/

/-- All descendants are asked for once at most, and no filter comes later. -/
def DescendsOnce (steps : List Step) : Prop :=
  steps.Pairwise fun earlier later =>
    earlier.movement = .descendants → later.movement ≠ .descendants ∧ later.isKeyed = true

instance (steps : List Step) : Decidable (DescendsOnce steps) :=
  inferInstanceAs (Decidable (List.Pairwise _ steps))

section Plans

variable {document : Json} (wf : document.WellFormed) (current : Path)

include wf

theorem nodup_selectSteps_keyed {steps : List Step}
    (plain : ∀ step ∈ steps, step.negated = false ∧ step.Distinct)
    (level : ∀ step ∈ steps, step.movement ≠ .descendants ∧ step.isKeyed = true) :
    ∀ {paths : List Path}, paths.Nodup → (selectSteps document current steps paths).Nodup := by
  induction steps with
  | nil => exact fun once => once
  | cons step rest ih =>
    intro paths once
    rw [List.forall_mem_cons] at plain level
    obtain ⟨⟨positive, distinct⟩, plain⟩ := plain
    obtain ⟨⟨flat, keyed⟩, level⟩ := level
    rw [selectSteps]
    exact ih plain level (nodup_selectStep_keyed wf positive distinct current flat keyed once)

/-- Up to the descent paths are apart, and behind it they are distinct. -/
theorem Apart.nodup_selectSteps {steps : List Step}
    (plain : ∀ step ∈ steps, step.negated = false ∧ step.Distinct) (once : DescendsOnce steps) :
    ∀ {paths : List Path}, Apart paths → (selectSteps document current steps paths).Nodup := by
  induction steps with
  | nil => exact fun apart => apart.imp Diverge.ne
  | cons step rest ih =>
    intro paths apart
    rw [List.forall_mem_cons] at plain
    obtain ⟨⟨positive, distinct⟩, plain⟩ := plain
    obtain ⟨later, once⟩ := List.pairwise_cons.mp once
    rw [selectSteps]
    by_cases descent : step.movement = .descendants
    · exact nodup_selectSteps_keyed wf current plain (fun next member => later next member descent)
        (apart.nodup_selectStep wf positive distinct current)
    · exact ih plain once (apart.selectStep wf positive distinct current descent)

theorem Plan.nodup_select {plan : Plan}
    (plain : ∀ step ∈ plan.steps, step.negated = false ∧ step.Distinct)
    (once : DescendsOnce plan.steps) : (plan.select document current).Nodup := by
  cases plan with
  | mk steps stop => exact Apart.nodup_selectSteps wf current plain once .nil

end Plans

theorem Grammar.Accessor.distinct {here there : Cursor} {step : Step}
    (written : Accessor here step there) : step.Distinct := by
  have bracket : ∀ {movement : Movement} {near : Cursor},
      Bracket movement near step there → step.Distinct := by
    intro movement near bracket
    cases bracket <;> trivial
  cases written with
  | named _ _ identifier => cases identifier <;> trivial
  | dotted _ _ inside => exact bracket inside
  | bare inside => exact bracket inside

theorem Grammar.Ending.distinct {last final : Step} {here there : Cursor} {compared : Bool}
    (ending : Ending last here final compared there) (distinct : last.Distinct) :
    final.Distinct := by
  cases ending with
  | plain => exact distinct
  | @compared _ selector => cases selector <;> exact distinct
  | unread => exact distinct

theorem Grammar.Query.distinct {here there : Cursor} {steps : List Step} {compared : Bool}
    (derived : Query here steps compared there) : ∀ step ∈ steps, step.Distinct := by
  obtain ⟨movement, near, -, behind, -⟩ := query_iff.mp derived
  exact behind.forall_steps Accessor.distinct Ending.distinct trivial

theorem distinct_of_compile {text : String} {plan : Plan} (compiled : compile text = .ok plan) :
    ∀ step ∈ plan.steps, step.Distinct := by
  cases compile_sound compiled with
  | plain derived _ => exact derived.distinct
  | compared derived _ _ => exact derived.distinct

/-- A query that asks for all descendants once at most, and has no filter behind that,
selects no path twice. -/
theorem select_compiled_nodup (text : String) (plan : Plan) (compiled : compile text = .ok plan)
    (once : DescendsOnce plan.steps) (document : Json) (wf : document.WellFormed)
    (current : Path) : (select (some plan) document current).Nodup :=
  plan.nodup_select wf current
    (fun step listed =>
      ⟨negated_eq_false_of_compile compiled step listed, distinct_of_compile compiled step listed⟩)
    once

theorem select_compiled_nodup_filters :
    let plan : Plan := .mk [.anchor .root, .keyed .children (some (.name "rows")) none false,
      .filter .children
        (.mk [.anchor .current, .keyed .children (some (.name "on")) none false] 13) false,
      .filter .descendants
        (.mk [.anchor .current, .keyed .children (some (.name "id")) none false] 24) false,
      .keyed .children (some (.name "id")) none false] 29
    let row : Json := .obj [("on", .bool true), ("id", .num (.int 1)),
      ("parts", .arr [.obj [("id", .num (.int 1))]])]
    let document : Json := .obj [("rows", .arr [row, row])]
    compile "$.rows[?(@.on)]..[?(@.id)].id" = .ok plan ∧ DescendsOnce plan.steps ∧
      document.WellFormed ∧ (select (some plan) document []).Nodup ∧
      (select (some plan) document []).length = 4 := by
  intro plan row document
  have compiled : compile "$.rows[?(@.on)]..[?(@.id)].id" = .ok plan := rfl
  have once : DescendsOnce plan.steps := by decide
  have wf : document.WellFormed := by
    simp [document, row, Json.WellFormed, Json.ElementsWellFormed, Json.MembersWellFormed]
  exact ⟨compiled, once, wf, select_compiled_nodup _ plan compiled once document wf [], by decide⟩

/-- Where all descendants are asked for twice, a path may be found from two starts. -/
example :
    let plan : Plan := .mk [.anchor .root, .keyed .descendants (some (.name "a")) none false,
      .keyed .descendants (some (.name "b")) none false] 7
    let document : Json := .obj [("a", .obj [("a", .obj [("b", .null)])])]
    let path : Path := [.name "a", .name "a", .name "b"]
    compile "$..a..b" = .ok plan ∧ select (some plan) document [] = [path, path] :=
  ⟨rfl, by decide⟩

end PathQuery
