import PathQuery.Proofs.Query.Filter

/-!
# Filters behind a query

A filter stands behind an anchor alone, or behind a query that no comparison
ends (`Front`).  It tests the nodes that the query found, or in place of an
array the elements of it, and keeps those from which the query inside it finds
something (`Front.select_filter`).
-/

set_option autoImplicit false

namespace PathQuery

open Grammar Compile Evaluate

/-- What a filter may stand behind, and the paths that are found there. -/
inductive Front : String → (Json → Path → List Path) → Prop
  | implicit : Front "" fun _ current => [current]
  | current : Front "@" fun _ current => [current]
  | root : Front "$" fun _ _ => [[]]
  | query {text : String} {plan : Plan} : compile text = .ok plan → endsCompared text = false →
      ¬ EmptyOrder text.toList → Front text (select (some plan))

/-- The nodes that a filter tests where it goes on from these paths. -/
def testedFrom (document : Json) (movement : Movement) (starts : List Path) : List Path :=
  expand document (tested (movement = .descendants)) starts

theorem expand_filter (document : Json) (visit : Path → Json → List Path) (keep : Path → Bool)
    (paths : List Path) :
    expand document (fun path value => (visit path value).filter keep) paths =
      (expand document visit paths).filter keep := by
  rw [expand, expand, List.filter_flatMap]
  apply List.flatMap_congr
  intro path _
  dsimp only
  split
  · rfl
  · rfl

theorem selectStep_filter (document : Json) (current : Path) {movement : Movement}
    (goes : movement.isAnchor = false) (plan : Plan) (starts : List Path) :
    selectStep document current (.filter movement plan false) starts =
      (testedFrom document movement starts).filter fun node =>
        !(selectPlan document node plan).isEmpty := by
  have goes' : (Step.filter movement plan false).movement.isAnchor = false := goes
  rw [selectStep_eq_expand document current goes', testedFrom, ← expand_filter]
  simp only [Step.visit, beq_false]
  rfl

theorem selectStep_filter_shift (document : Json) (current : Path) {movement : Movement}
    (goes : movement.isAnchor = false) (steps : List Step) (distance : Nat) (stop : Int)
    (starts : List Path) :
    selectStep document current
        (.filter movement (.mk (steps.map (Step.shift distance)) stop) false) starts =
      (testedFrom document movement starts).filter fun node =>
        !(selectSteps document node steps []).isEmpty := by
  rw [selectStep_filter document current goes]
  apply List.filter_congr
  intro node _
  rw [selectPlan, selectSteps_map_shift steps fun _ plan _ _ => selectPlan_shift plan]

section Read

variable {text lead : String} {steps : List Step} {movement : Movement}

theorem Enclosed.compile_anchor (enclosed : Enclosed text steps) (negated : Bool)
    (leads : Lead lead.toList movement) (a : String) {first : Movement}
    (anchored : ∀ rest, Anchor ⟨0, a.toList ++ rest⟩ first ⟨a.length, rest⟩) :
    ∃ stop stop', compile (a ++ (lead ++ "[?(" ++ mark negated ++ text ++ ")]")) =
      .ok (.mk [.anchor first, .filter movement (.mk ((turned negated steps).map
        (Step.shift (a.length + lead.length + (mark negated).length))) stop) false] stop') := by
  have room : (lead ++ "[?(" ++ mark negated ++ text ++ ")]").length <
      (a ++ (lead ++ "[?(" ++ mark negated ++ text ++ ")]")).length + 1 := by
    rw [String.length_append a]
    omega
  obtain ⟨stop, there, read⟩ :=
    enclosed.accessors negated leads a.length room (.anchor first)
  have behind := accessors_sound _ _ _ _ read
  have written := anchored (lead ++ "[?(" ++ mark negated ++ text ++ ")]").toList
  obtain ⟨filled, -, found⟩ := anchor_complete written behind (Nat.le_refl 2)
  rw [← String.toList_append] at filled found
  refine ⟨stop, there, compile_eq_ok_iff_read.mpr ⟨⟨[_, _], false, ⟨there, []⟩⟩, ?_, nofun, rfl⟩⟩
  exact query_eq_ok_iff.mpr ⟨filled, _, _, found, read, Nat.le_refl 2⟩

theorem Front.select_filter {a : String} {find : Json → Path → List Path} (front : Front a find)
    (leads : Lead lead.toList movement) (enclosed : Enclosed text steps) (negated : Bool) :
    ∃ plan, compile (a ++ (lead ++ "[?(" ++ mark negated ++ text ++ ")]")) = .ok plan ∧
      ∀ document current, select (some plan) document current =
        (testedFrom document movement (find document current)).filter fun node =>
          !(selectSteps document node (turned negated steps) []).isEmpty := by
  have goes := leads.isAnchor_eq_false
  cases front with
  | implicit =>
    obtain ⟨stop, stop', compiled⟩ := enclosed.compile_anchor negated leads "" fun rest => .implicit
    exact ⟨_, compiled, fun document current =>
      selectStep_filter_shift document current goes _ _ _ _⟩
  | current =>
    obtain ⟨stop, stop', compiled⟩ := enclosed.compile_anchor negated leads "@"
      fun rest => .current ⟨rfl, rfl⟩
    exact ⟨_, compiled, fun document current =>
      selectStep_filter_shift document current goes _ _ _ _⟩
  | root =>
    obtain ⟨stop, stop', compiled⟩ := enclosed.compile_anchor negated leads "$"
      fun rest => .root ⟨rfl, rfl⟩
    exact ⟨_, compiled, fun document current =>
      selectStep_filter_shift document current goes _ _ _ _⟩
  | @query _ plan compiled uncompared clear =>
    obtain ⟨before, read, rfl⟩ := exists_read_of_compile compiled uncompared
    obtain ⟨stop, there, behind⟩ := enclosed.accessors negated leads 1
      (Nat.lt_add_of_pos_right (Nat.zero_lt_succ 1)) (.anchor .current)
    have whole := query_append read clear behind rfl (List.cons_ne_nil _ _) (.inr (.inl rfl))
    refine ⟨_, compile_eq_ok_iff_read.mpr ⟨_, whole, nofun, rfl⟩, fun document current => ?_⟩
    rw [select, Plan.select, selectPlan, selectSteps_append,
      selectSteps_map_shift _ fun _ plan _ _ => selectPlan_shift plan]
    exact selectStep_filter_shift document current goes _ _ _ _

end Read

end PathQuery
