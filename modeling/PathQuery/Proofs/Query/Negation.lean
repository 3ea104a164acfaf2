import PathQuery.Proofs.Query.Front

/-!
# Marked filters

The mark of negation does not turn the outcome of the query in a filter round
but the question that its last step asks of each place (`Step.verdict?`).  So a
filter and the marked one keep a node both if and only if the question is
answered with yes at one place and with no at another
(`marked_filters_overlap_iff`).  Where each step of the query leads to one place
at most, they never do (`length_verdicts_le_one`).
-/

set_option autoImplicit false

namespace PathQuery

open Grammar Compile Evaluate

def Step.asked (document : Json) (paths : List Path) : Step → List Path
  | .keyed movement selector _ _ =>
    expand document (proposed selector (movement = .descendants)) paths
  | .filter movement _ _ => testedFrom document movement paths

/-- What a step is answered at a place, its mark apart.  A comparison of a value that is not
there has no answer. -/
def Step.verdict? (document : Json) (place : Path) : Step → Option Bool
  | .keyed _ _ none _ => some (document.resolve place).owned
  | .keyed _ _ (some comparison) _ =>
    if (document.resolve place).owned then
      some (comparison.holds (document.resolve place).value)
    else none
  | .filter _ plan _ => some !(selectPlan document place plan).isEmpty

theorem passes_eq_verdict? (document : Json) (movement : Movement) (selector : Option Selector)
    (comparison : Option Comparison) (negated : Bool) (place : Path) :
    passes comparison negated (document.resolve place) =
      decide ((Step.keyed movement selector comparison negated).verdict? document place =
        some !negated) := by
  cases comparison with
  | none =>
    rw [passes, Step.verdict?]
    cases (document.resolve place).owned <;> cases negated <;> rfl
  | some comparison =>
    rw [passes, Step.verdict?]
    cases (document.resolve place).owned with
    | false => rfl
    | true => cases comparison.holds (document.resolve place).value <;> cases negated <;> rfl

theorem selectStep_eq_filter (document : Json) (current : Path) {step : Step}
    (goes : step.movement.isAnchor = false) (paths : List Path) :
    selectStep document current step paths =
      (step.asked document paths).filter fun place =>
        step.verdict? document place = some !step.negated := by
  rw [selectStep_eq_expand document current goes]
  cases step with
  | keyed movement selector comparison negated =>
    simp only [Step.visit, passes_eq_verdict? document movement selector]
    exact expand_filter document _ _ paths
  | filter movement plan negated =>
    have same : ∀ place : Path, ((selectPlan document place plan).isEmpty == negated) =
        decide ((Step.filter movement plan negated).verdict? document place = some !negated) := by
      intro place
      rw [Step.verdict?]
      cases (selectPlan document place plan).isEmpty <;> cases negated <;> rfl
    simp only [Step.visit, same]
    exact expand_filter document _ _ paths

theorem Step.asked_negate (document : Json) (paths : List Path) (step : Step) :
    step.negate.asked document paths = step.asked document paths := by
  cases step <;> rfl

theorem Step.verdict?_negate (document : Json) (place : Path) (step : Step) :
    step.negate.verdict? document place = step.verdict? document place := by
  cases step with
  | keyed movement selector comparison negated => cases comparison <;> rfl
  | filter => rfl

theorem Step.movement_negate (step : Step) : step.negate.movement = step.movement := by
  cases step <;> rfl

theorem Step.negated_negate (step : Step) : step.negate.negated = true := by
  cases step <;> rfl

/-- What the last step of a query is answered below a node, place by place. -/
def verdicts (document : Json) (node : Path) (steps : List Step) : List (Option Bool) :=
  match steps.getLast? with
  | none => []
  | some last =>
    (last.asked document (selectSteps document node steps.dropLast [])).map fun place =>
      last.verdict? document place

theorem verdicts_concat (document : Json) (node : Path) (front : List Step) (last : Step) :
    verdicts document node (front ++ [last]) =
      (last.asked document (selectSteps document node front [])).map fun place =>
        last.verdict? document place := by
  rw [verdicts, List.getLast?_concat, List.dropLast_concat]

/-- A query finds something where its last step is answered with yes, and a marked one where it is
answered with no. -/
theorem isEmpty_selectSteps_turned (document : Json) (node : Path) {front : List Step} {last : Step}
    (goes : last.movement.isAnchor = false) (plain : last.negated = false) (negated : Bool) :
    (!(selectSteps document node (turned negated (front ++ [last])) []).isEmpty) =
      decide (some (!negated) ∈ verdicts document node (front ++ [last])) := by
  have found : ∀ step : Step, step.movement.isAnchor = false →
      ((!(selectSteps document node (front ++ [step]) []).isEmpty) = true ↔
        some (!step.negated) ∈ verdicts document node (front ++ [step])) := by
    intro step goes
    rw [selectSteps_append, verdicts_concat, List.mem_map]
    change (!(selectStep document node step _).isEmpty) = true ↔ _
    rw [selectStep_eq_filter document node goes]
    simp
  have verdict : verdicts document node (front ++ [last.negate]) =
      verdicts document node (front ++ [last]) := by
    simp only [verdicts_concat, Step.asked_negate, Step.verdict?_negate]
  rw [Bool.eq_iff_iff, decide_eq_true_eq]
  cases negated with
  | false =>
    have plain' := found last goes
    rwa [plain] at plain'
  | true =>
    have marked := found last.negate (by rwa [Step.movement_negate])
    rw [Step.negated_negate, verdict] at marked
    rw [turned, if_pos rfl, negateLast_append]
    exact marked

theorem Enclosed.exists_last {text : String} {steps : List Step} (enclosed : Enclosed text steps) :
    ∃ front last, steps = front ++ [last] ∧ last.movement.isAnchor = false ∧
      last.negated = false := by
  obtain ⟨compared, query⟩ := enclosed.query
  obtain ⟨movement, near, -, behind, long⟩ := query_iff.mp query
  obtain ⟨rest, split, go⟩ := behind.exists_rest long
  have some' : rest ≠ [] := by
    rintro rfl
    rw [split] at long
    simp at long
  have listed : rest.getLast some' ∈ steps := by
    rw [split]
    exact List.mem_cons_of_mem _ (List.getLast_mem some')
  refine ⟨.anchor movement :: rest.dropLast, rest.getLast some', ?_, ?_, ?_⟩
  · rw [List.cons_append, List.dropLast_concat_getLast some', split]
  · exact go _ (List.getLast_mem some')
  · exact query.negated_eq_false _ listed

/-- An anchor, or a child by its name or its index. -/
def Step.leadsToOne : Step → Bool
  | .keyed .children (some (.name _)) _ _ => true
  | .keyed .children (some (.index _)) _ _ => true
  | .keyed movement _ _ _ => movement.isAnchor
  | .filter .. => false

theorem length_expand_le_one (document : Json) {visit : Path → Json → List Path}
    (one : ∀ path value, (visit path value).length ≤ 1) {paths : List Path}
    (short : paths.length ≤ 1) : (expand document visit paths).length ≤ 1 := by
  rcases paths with _ | ⟨path, _ | ⟨other, more⟩⟩
  · exact Nat.zero_le 1
  · rw [expand, List.flatMap_singleton]
    dsimp only
    split
    · exact Nat.zero_le 1
    · exact one path _
  · simp at short

theorem length_proposed_name (text : String) (path : Path) (value : Json) :
    (proposed (some (.name text)) false path value).length = 1 := by
  simp [proposed, namedPaths]

theorem length_proposed_index (position : Int) (path : Path) (value : Json) :
    (proposed (some (.index position)) false path value).length ≤ 1 := by
  rw [proposed, indexedPaths]
  cases position? position value <;> simp

theorem Step.length_asked_le_one (document : Json) {step : Step} (single : step.leadsToOne = true)
    (goes : step.movement.isAnchor = false) {paths : List Path} (short : paths.length ≤ 1) :
    (step.asked document paths).length ≤ 1 := by
  rw [Step.leadsToOne.eq_def] at single
  split at single
  · rename_i text _ _
    exact length_expand_le_one document
      (fun path value => Nat.le_of_eq (length_proposed_name text path value)) short
  · rename_i position _ _
    exact length_expand_le_one document (length_proposed_index position) short
  · rw [Step.movement, single] at goes
    cases goes
  · cases single

theorem length_selectStep_le_one (document : Json) (current : Path) {step : Step}
    (single : step.leadsToOne = true) {paths : List Path} (short : paths.length ≤ 1) :
    (selectStep document current step paths).length ≤ 1 := by
  cases goes : step.movement.isAnchor with
  | false =>
    rw [selectStep_eq_filter document current goes]
    have asked := step.length_asked_le_one document single goes short
    exact Nat.le_trans (List.length_filter_le _ _) asked
  | true =>
    rw [selectStep_eq_move]
    cases moves : step.movement with
    | root => exact Nat.le_refl 1
    | current => exact Nat.le_refl 1
    | children =>
      rw [moves] at goes
      cases goes
    | descendants =>
      rw [moves] at goes
      cases goes

theorem length_selectSteps_le_one (document : Json) (current : Path) {steps : List Step}
    (single : ∀ step ∈ steps, step.leadsToOne = true) :
    ∀ paths : List Path, paths.length ≤ 1 →
      (selectSteps document current steps paths).length ≤ 1 := by
  induction steps with
  | nil =>
    intro paths short
    exact short
  | cons step rest ih =>
    intro paths short
    have first := single step (List.mem_cons_self ..)
    have one := length_selectStep_le_one document current first short
    exact ih (fun step listed => single step (List.mem_cons_of_mem _ listed)) _ one

theorem length_verdicts_le_one (document : Json) (node : Path) {front : List Step} {last : Step}
    (goes : last.movement.isAnchor = false)
    (single : ∀ step ∈ front ++ [last], step.leadsToOne = true) :
    (verdicts document node (front ++ [last])).length ≤ 1 := by
  rw [verdicts_concat, List.length_map]
  refine last.length_asked_le_one document (single last (by simp)) goes ?_
  refine length_selectSteps_le_one document node (fun step listed => ?_) [] (Nat.zero_le 1)
  exact single step (List.mem_append_left _ listed)

/-! ## A filter and the marked one -/

theorem Front.select_marked {a lead text : String} {find : Json → Path → List Path}
    {movement : Movement} {steps : List Step} (front : Front a find)
    (leads : Lead lead.toList movement) (enclosed : Enclosed text steps) :
    ∃ kept dropped, compile (a ++ lead ++ "[?(" ++ text ++ ")]") = .ok kept ∧
      compile (a ++ lead ++ "[?(!" ++ text ++ ")]") = .ok dropped ∧
      ∀ document current,
        select (some kept) document current =
            (testedFrom document movement (find document current)).filter
              (fun node => some true ∈ verdicts document node steps) ∧
          select (some dropped) document current =
            (testedFrom document movement (find document current)).filter
              fun node => some false ∈ verdicts document node steps := by
  obtain ⟨before, last, rfl, goes, plain⟩ := enclosed.exists_last
  obtain ⟨kept, compiled, keeps⟩ := front.select_filter leads enclosed false
  obtain ⟨dropped, compiled', drops⟩ := front.select_filter leads enclosed true
  have unmarked : a ++ lead ++ "[?(" ++ text ++ ")]" =
      a ++ (lead ++ "[?(" ++ mark false ++ text ++ ")]") := by
    simp only [mark, String.append_empty, String.append_assoc]
  have marked : a ++ lead ++ "[?(!" ++ text ++ ")]" =
      a ++ (lead ++ "[?(" ++ mark true ++ text ++ ")]") := by
    have opening : "[?(!" = "[?(" ++ mark true := rfl
    simp only [opening, String.append_assoc]
  refine ⟨kept, dropped, unmarked ▸ compiled, marked ▸ compiled', fun document current => ?_⟩
  rw [keeps, drops]
  simp only [isEmpty_selectSteps_turned document _ goes plain]
  exact ⟨rfl, rfl⟩

/-- A filter and the marked one keep the nodes from which the query inside them is answered with
yes somewhere, and with no somewhere.  They keep none both where each of its steps leads to one
place at most. -/
theorem marked_filters_overlap_iff {a lead text : String} {find : Json → Path → List Path}
    {movement : Movement} {inner marked : Plan} {stop : Int} (front : Front a find)
    (leads : Lead lead.toList movement)
    (alone : compile ("[?(" ++ text ++ ")]") =
      .ok (.mk [.anchor .current, .filter .children inner false] stop))
    (both : compile ("[?(!" ++ text ++ ")]") = .ok marked) :
    ∃ kept dropped, compile (a ++ lead ++ "[?(" ++ text ++ ")]") = .ok kept ∧
      compile (a ++ lead ++ "[?(!" ++ text ++ ")]") = .ok dropped ∧
      ∀ document current path,
        (path ∈ select (some kept) document current ∧
            path ∈ select (some dropped) document current ↔
          path ∈ testedFrom document movement (find document current) ∧
            some true ∈ verdicts document path inner.steps ∧
              some false ∈ verdicts document path inner.steps) ∧
        ((∀ step ∈ inner.steps, step.leadsToOne = true) →
          path ∈ select (some kept) document current →
            path ∉ select (some dropped) document current) := by
  have enclosed := Enclosed.of_compile alone (head_ne_of_compile_marked both)
  obtain ⟨before, last, split, goes, -⟩ := enclosed.exists_last
  obtain ⟨kept, dropped, compiled, compiled', found⟩ := front.select_marked leads enclosed
  have overlap : ∀ document current path,
      path ∈ select (some kept) document current ∧ path ∈ select (some dropped) document current ↔
        path ∈ testedFrom document movement (find document current) ∧
          some true ∈ verdicts document path inner.steps ∧
            some false ∈ verdicts document path inner.steps := by
    intro document current path
    obtain ⟨keeps, drops⟩ := found document current
    simp only [keeps, drops, List.mem_filter, decide_eq_true_eq]
    tauto
  refine ⟨kept, dropped, compiled, compiled', fun document current path => ?_⟩
  refine ⟨overlap document current path, fun single here there => ?_⟩
  obtain ⟨-, yes, no⟩ := (overlap document current path).mp ⟨here, there⟩
  rw [split] at single yes no
  have short := length_verdicts_le_one document path goes single
  rcases answers : verdicts document path (before ++ [last]) with _ | ⟨answer, _ | ⟨other, more⟩⟩
  · simp [answers] at yes
  · simp only [answers, List.mem_singleton] at yes no
    rw [← yes] at no
    cases no
  · simp [answers] at short

/-- Of the two rows one is an ad and one is not, so the filter and the marked one keep the root. -/
theorem marked_filters_overlap_iff_rows :
    let inner : Plan := .mk [.anchor .current, .keyed .children (some (.name "rows")) none false,
      .filter .children (.mk [.anchor .current, .keyed .children (some (.name "ad")) none false]
        16) false] 18
    let marked : Plan := .mk [.anchor .current, .filter .children
      (.mk [.anchor .current, .keyed .children (some (.name "rows")) none false,
        .filter .children (.mk [.anchor .current, .keyed .children (some (.name "ad")) none false]
          17) true] 19) false] 21
    let rows : Json := .obj [("rows", .arr [.obj [("ad", .num (.int 1))],
      .obj [("post", .num (.int 1))]])]
    Front "$" (fun _ _ => [[]]) ∧ Lead "".toList .children ∧
      compile ("[?(" ++ "@.rows[?(@.ad)]" ++ ")]") =
        .ok (.mk [.anchor .current, .filter .children inner false] 20) ∧
      compile ("[?(!" ++ "@.rows[?(@.ad)]" ++ ")]") = .ok marked ∧
      ∃ kept dropped, compile ("$" ++ "" ++ "[?(" ++ "@.rows[?(@.ad)]" ++ ")]") = .ok kept ∧
        compile ("$" ++ "" ++ "[?(!" ++ "@.rows[?(@.ad)]" ++ ")]") = .ok dropped ∧
        [] ∈ select (some kept) rows [] ∧ [] ∈ select (some dropped) rows [] := by
  intro inner marked rows
  have leads : Lead "".toList .children := .plain (by simp)
  have alone : compile ("[?(" ++ "@.rows[?(@.ad)]" ++ ")]") =
      .ok (.mk [.anchor .current, .filter .children inner false] 20) := rfl
  have both : compile ("[?(!" ++ "@.rows[?(@.ad)]" ++ ")]") = .ok marked := rfl
  obtain ⟨kept, dropped, compiled, compiled', overlap⟩ :=
    marked_filters_overlap_iff .root leads alone both
  refine ⟨.root, leads, alone, both, kept, dropped, compiled, compiled', ?_⟩
  exact (overlap rows [] []).1.mpr (by decide)

/-- It is not so that a filter and the marked one never keep the same node. -/
theorem not_marked_filters_disjoint :
    ¬ ∀ (a text : String) (kept dropped : Plan),
      compile (a ++ "[?(" ++ text ++ ")]") = .ok kept →
      compile (a ++ "[?(!" ++ text ++ ")]") = .ok dropped →
      ∀ document : Json, document.WellFormed → ∀ path : Path,
        path ∈ select (some kept) document [] → path ∉ select (some dropped) document [] := by
  intro disjoint
  let rows : Json := .obj [("rows", .arr [.obj [("ad", .num (.int 1))],
    .obj [("post", .num (.int 1))]])]
  let ad (stop : Int) : Plan :=
    .mk [.anchor .current, .keyed .children (some (.name "ad")) none false] stop
  let kept : Plan := .mk [.anchor .root, .filter .children
    (.mk [.anchor .current, .keyed .children (some (.name "rows")) none false,
      .filter .children (ad 17) false] 19) false] 21
  let dropped : Plan := .mk [.anchor .root, .filter .children
    (.mk [.anchor .current, .keyed .children (some (.name "rows")) none false,
      .filter .children (ad 18) true] 20) false] 22
  have wf : rows.WellFormed := by simp [rows, Json.WellFormed, Json.MembersWellFormed,
    Json.ElementsWellFormed]
  exact disjoint "$" "@.rows[?(@.ad)]" kept dropped rfl rfl rows wf [] (by decide) (by decide)

end PathQuery
