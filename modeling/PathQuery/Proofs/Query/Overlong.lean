import PathQuery.Proofs.Json.Reading
import PathQuery.Proofs.Query.Nested
import PathQuery.Source

/-!
# Numbers that cannot be written

An evaluation that comes to an answer comes to the one it would have if all
numbers could be written, and it does come to one if those of the document and
of the operands can be (`Plan.agrees_select?`).  The lines of a payload are
read, so for them only the operands count (`agrees_pruneLines?`).
-/

set_option autoImplicit false

namespace PathQuery

open Evaluate

/-- A result that is `value` if it is there, and is there where numbers are `short`. -/
structure Agrees {α : Type} (short : Prop) (result : Except OverlongNumber α) (value : α) :
    Prop where
  sound : ∀ answer, result = .ok answer → answer = value
  answers : short → result = .ok value

namespace Agrees

variable {α β : Type} {short : Prop} {result : Except OverlongNumber α} {value : α}

theorem ok (value : α) : Agrees short (.ok value) value :=
  ⟨fun _ same => (Except.ok.inj same).symm, fun _ => rfl⟩

theorem weaken {short' : Prop} (agrees : Agrees short result value) (implied : short' → short) :
    Agrees short' result value :=
  ⟨agrees.sound, fun holds => agrees.answers (implied holds)⟩

theorem bind (agrees : Agrees short result value) {next : α → Except OverlongNumber β} {last : β}
    (further : Agrees short (next value) last) : Agrees short (result >>= next) last := by
  constructor
  · intro answer found
    cases first : result with
    | error e => rw [first] at found; cases found
    | ok middle =>
      rw [first, agrees.sound middle first] at found
      exact further.sound answer found
  · intro holds
    rw [agrees.answers holds]
    exact further.answers holds

theorem map (agrees : Agrees short result value) (change : α → β) :
    Agrees short (result.map change) (change value) := by
  have mapped : Agrees short (result >>= fun answer => .ok (change answer)) (change value) :=
    agrees.bind (.ok _)
  cases result <;> exact mapped

theorem mapM {visit : α → Except OverlongNumber β} {image : α → β} {items : List α}
    (each : ∀ item ∈ items, Agrees short (visit item) (image item)) :
    Agrees short (items.mapM visit) (items.map image) := by
  induction items with
  | nil => exact .ok []
  | cons item rest ih =>
    obtain ⟨first, later⟩ := List.forall_mem_cons.mp each
    rw [List.mapM_cons]
    exact first.bind ((ih later).bind (.ok _))

theorem ok_or_error (agrees : Agrees short result value) :
    result = .ok value ∨ ¬ short ∧ ∃ e, result = .error e := by
  cases found : result with
  | ok answer => exact .inl (by rw [agrees.sound answer found])
  | error e =>
    refine .inr ⟨fun holds => ?_, e, rfl⟩
    rw [agrees.answers holds] at found
    cases found

end Agrees

theorem Json.agrees_text? (value : Json) : Agrees value.ShortNumbers value.text? value.text := by
  rw [text?]
  split
  · exact .ok _
  · exact ⟨nofun, fun short => absurd short ‹_›⟩

theorem Operator.agrees_holds? (op : Operator) (value operand : Json) :
    Agrees (value.ShortNumbers ∧ operand.ShortNumbers) (op.holds? value operand)
      (op.holds value operand) := by
  have left := value.agrees_text?.weaken fun short : _ ∧ operand.ShortNumbers => short.1
  have right := operand.agrees_text?.weaken fun short : value.ShortNumbers ∧ _ => short.2
  cases op with
  | startsWith | endsWith | contains => exact left.bind (right.bind (.ok _))
  | _ => exact .ok _

/-- Whether a step compares with nothing that cannot be written. -/
def Step.ShortOperand : Step → Prop
  | .keyed _ _ comparison _ => ∀ asked, comparison = some asked → asked.operand.ShortNumbers
  | .filter .. => True

theorem agrees_passes? (movement : Movement) (selector : Option Selector)
    (comparison : Option Comparison) (negated : Bool) (r : Resolution) :
    Agrees (r.value.ShortNumbers ∧
        (Step.keyed movement selector comparison negated).ShortOperand)
      (passes? comparison negated r) (passes comparison negated r) := by
  cases comparison with
  | none => exact .ok _
  | some asked =>
    rw [passes?, passes]
    cases r.owned with
    | false => exact .ok _
    | true =>
      have held := asked.operator.agrees_holds? r.value asked.operand
      exact (held.map _).weaken fun short => ⟨short.1, short.2 asked rfl⟩

section Steps

variable {short : Prop}

theorem agrees_collect? {α β : Type} {visit : α → Except OverlongNumber (List β)}
    {image : α → List β} {items : List α}
    (each : ∀ item ∈ items, Agrees short (visit item) (image item)) :
    Agrees short (collect? visit items) (items.flatMap image) := by
  have found := (Agrees.mapM each).map List.flatten
  rwa [← List.flatMap_def] at found

theorem Evaluate.collect?_singleton {α β : Type} (visit : α → Except OverlongNumber (List β))
    (item : α) : collect? visit [item] = visit item := by
  rw [collect?, List.mapM_cons, List.mapM_nil]
  cases visit item with
  | error e => rfl
  | ok found => exact congrArg Except.ok (List.append_nil found)

theorem agrees_keep? {asks : Path → Except OverlongNumber Bool} {keep : Path → Bool}
    {paths : List Path} (each : ∀ path ∈ paths, Agrees short (asks path) (keep path)) :
    Agrees short (keep? asks paths) (paths.filter keep) := by
  have kept : paths.filter keep = paths.flatMap fun path => if keep path then [path] else [] := by
    induction paths with
    | nil => rfl
    | cons path rest ih =>
      rw [List.flatMap_cons, ← ih fun path listed => each path (List.mem_cons_of_mem _ listed),
        List.filter_cons]
      cases keep path <;> rfl
  rw [kept]
  exact agrees_collect? fun path listed => (each path listed).map _

theorem agrees_expand? (document : Json) {visit : Path → Json → Except OverlongNumber (List Path)}
    {image : Path → Json → List Path}
    (each : ∀ path value, Agrees short (visit path value) (image path value))
    (paths : List Path) :
    Agrees short (expand? document visit paths) (expand document image paths) := by
  refine agrees_collect? fun path _ => ?_
  dsimp only
  split
  · exact .ok []
  · exact each ..

variable (document : Json) (current : Path)

theorem agrees_move? {visit : Bool → Path → Json → Except OverlongNumber (List Path)}
    {image : Bool → Path → Json → List Path}
    (each : ∀ recursive path value,
      Agrees short (visit recursive path value) (image recursive path value))
    (movement : Movement) (paths : List Path) :
    Agrees short (move? document current movement visit paths)
      (move document current movement image paths) := by
  cases movement with
  | root | current => exact .ok _
  | children => exact agrees_expand? document (each false) paths
  | descendants => exact agrees_expand? document (each true) paths

theorem agrees_selectStep? {step : Step}
    (inner : ∀ movement plan negated, step = .filter movement plan negated → ∀ current : Path,
      Agrees (document.ShortNumbers ∧ plan.EveryStep Step.ShortOperand)
        (selectPlan? document current plan) (selectPlan document current plan))
    (paths : List Path) :
    Agrees (document.ShortNumbers ∧ Plan.StepEvery Step.ShortOperand step)
      (selectStep? document current step paths) (selectStep document current step paths) := by
  cases step with
  | keyed movement selector comparison negated =>
    rw [selectStep?, selectStep]
    refine agrees_move? _ _ (fun recursive path value => agrees_keep? fun place _ => ?_) _ _
    have asked := agrees_passes? movement selector comparison negated (document.resolve place)
    exact asked.weaken fun short => ⟨short.1.resolve place, short.2⟩
  | filter movement plan negated =>
    rw [selectStep?, selectStep]
    refine agrees_move? _ _ (fun recursive path value => agrees_keep? fun place _ => ?_) _ _
    exact ((inner movement plan negated rfl place).map _).weaken fun short => ⟨short.1, short.2.2⟩

theorem agrees_selectSteps? {steps : List Step}
    (inner : ∀ movement plan negated, Step.filter movement plan negated ∈ steps →
      ∀ current : Path, Agrees (document.ShortNumbers ∧ plan.EveryStep Step.ShortOperand)
        (selectPlan? document current plan) (selectPlan document current plan)) :
    ∀ paths : List Path,
      Agrees (document.ShortNumbers ∧ Plan.StepsEvery Step.ShortOperand steps)
        (selectSteps? document current steps paths) (selectSteps document current steps paths) := by
  induction steps with
  | nil => intro paths; exact .ok paths
  | cons step rest ih =>
    intro paths
    rw [selectSteps?, selectSteps]
    have first := agrees_selectStep? document current (fun movement plan negated same =>
      inner movement plan negated (same ▸ List.mem_cons_self ..)) paths
    have later := ih fun movement plan negated listed =>
      inner movement plan negated (List.mem_cons_of_mem _ listed)
    exact (first.weaken fun short => ⟨short.1, short.2.1⟩).bind
      ((later _).weaken fun short => ⟨short.1, short.2.2⟩)

end Steps

theorem Plan.agrees_select? (document : Json) (plan : Plan) : ∀ current : Path,
    Agrees (document.ShortNumbers ∧ plan.EveryStep Step.ShortOperand)
      (plan.select? document current) (plan.select document current) := by
  induction plan using Plan.innerInduction with
  | step steps stop ih =>
    intro current
    exact agrees_selectSteps? document current ih []

/-- Whether the plan, if there is one, compares with nothing that cannot be written. -/
def ShortOperands (plan : Option Plan) : Prop :=
  ∀ made, plan = some made → made.EveryStep Step.ShortOperand

theorem agrees_select? (plan : Option Plan) (document : Json) (current : Path) :
    Agrees (document.ShortNumbers ∧ ShortOperands plan) (select? plan document current)
      (select plan document current) := by
  cases plan with
  | none => exact .ok []
  | some made =>
    exact (made.agrees_select? document current).weaken fun short => ⟨short.1, short.2 made rfl⟩

theorem agrees_prune? (plan : Option Plan) (document : Json) :
    Agrees (document.ShortNumbers ∧ ShortOperands plan) (prune? plan document)
      (prune plan document) :=
  (agrees_select? plan document []).map _

theorem agrees_pruneLine? (settings : Settings) (plan : Option Plan) (line : List Char) :
    Agrees (ShortOperands plan) (pruneLine? settings plan line) (pruneLine settings plan line) := by
  rw [pruneLine?, pruneLine]
  cases reads : Json.read? (String.ofList line) with
  | none => exact .ok _
  | some document =>
    dsimp only
    cases document.isContainer with
    | false => exact .ok _
    | true =>
      have selects := agrees_select? plan document []
      exact (selects.weaken fun short => ⟨(Json.readable_of_read? reads).short, short⟩).map _

theorem agrees_pruneLines? (settings : Settings) (plan : Option Plan) (text : String) :
    Agrees (ShortOperands plan) (pruneLines? settings plan text) (pruneLines settings plan text) :=
  (Agrees.mapM fun line _ => agrees_pruneLine? settings plan line).map Outcome.ofLines

end PathQuery
