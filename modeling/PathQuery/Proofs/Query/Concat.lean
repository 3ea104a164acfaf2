import PathQuery.Proofs.Query.Nested
import PathQuery.Proofs.Query.Placement
import PathQuery.Proofs.Query.Visit

/-!
# Queries one behind the other

Text behind a query goes on where the query found its last node: the query and
the text together select what the text selects from each node that the query
selects (`compile_append`).  The reader does not see where the query ended, so
the query must not end in a comparison, and its plans have to be those it has
alone.
-/

set_option autoImplicit false

namespace PathQuery

open Grammar Compile Evaluate

/-- Whether a comparison ends a query outside of its filters. -/
def endsCompared (text : String) : Bool :=
  match query (accessors (text.length + 1)) (Cursor.start text) with
  | .ok parsed => parsed.compared
  | .error _ => false

section Shift

variable {document : Json} {distance : Nat}

theorem selectSteps_map {current : Path} {change : Step → Step} {steps : List Step}
    (alike : ∀ step ∈ steps, ∀ paths, selectStep document current (change step) paths =
      selectStep document current step paths) :
    ∀ paths : List Path, selectSteps document current (steps.map change) paths =
      selectSteps document current steps paths := by
  induction steps with
  | nil => intro paths; rfl
  | cons step rest ih =>
    intro paths
    obtain ⟨first, later⟩ := List.forall_mem_cons.mp alike
    rw [List.map_cons, selectSteps, selectSteps, first]
    exact ih later _

theorem selectSteps_map_shift {current : Path} (steps : List Step)
    (inner : ∀ movement plan negated, Step.filter movement plan negated ∈ steps → ∀ path : Path,
      selectPlan document path (plan.shift distance) = selectPlan document path plan) :
    ∀ paths : List Path, selectSteps document current (steps.map (Step.shift distance)) paths =
      selectSteps document current steps paths := by
  refine selectSteps_map fun step listed paths => ?_
  cases step with
  | keyed => rfl
  | filter movement plan negated =>
    simp only [Step.shift, selectStep, inner movement plan negated listed]

theorem selectPlan_shift (plan : Plan) : ∀ path : Path,
    selectPlan document path (plan.shift distance) = selectPlan document path plan := by
  induction plan using Plan.innerInduction with
  | step steps stop ih =>
    intro path
    rw [Plan.shift, selectPlan, selectPlan, Plan.shiftSteps_eq_map]
    exact selectSteps_map_shift steps ih []

theorem selectSteps?_map {current : Path} {change : Step → Step} {steps : List Step}
    (alike : ∀ step ∈ steps, ∀ paths, selectStep? document current (change step) paths =
      selectStep? document current step paths) :
    ∀ paths : List Path, selectSteps? document current (steps.map change) paths =
      selectSteps? document current steps paths := by
  induction steps with
  | nil => intro paths; rfl
  | cons step rest ih =>
    intro paths
    obtain ⟨first, later⟩ := List.forall_mem_cons.mp alike
    rw [List.map_cons, selectSteps?, selectSteps?, first]
    exact bind_congr fun _ => ih later _

theorem selectPlan?_shift (plan : Plan) : ∀ path : Path,
    selectPlan? document path (plan.shift distance) = selectPlan? document path plan := by
  induction plan using Plan.innerInduction with
  | step steps stop ih =>
    intro path
    rw [Plan.shift, selectPlan?, selectPlan?, Plan.shiftSteps_eq_map]
    refine selectSteps?_map (fun step listed paths => ?_) []
    cases step with
    | keyed => rfl
    | filter movement plan negated =>
      simp only [Step.shift, selectStep?, ih movement plan negated listed]

end Shift

theorem Plan.shift_zero (plan : Plan) : plan.shift 0 = plan := by
  induction plan using Plan.innerInduction with
  | step steps stop ih =>
    have same : steps.map (Step.shift 0) = steps.map id := by
      apply List.map_congr_left
      intro step listed
      cases step with
      | keyed => rfl
      | filter movement plan negated => rw [Step.shift, ih movement plan negated listed, id]
    rw [Plan.shift, Plan.shiftSteps_eq_map, same, List.map_id]
    simp

theorem map_shift_zero (steps : List Step) : steps.map (Step.shift 0) = steps := by
  have whole := Plan.shift_zero (.mk steps 0)
  rw [Plan.shift, Plan.shiftSteps_eq_map, Plan.mk.injEq] at whole
  exact whole.1

theorem selectStep_eq_flatMap (document : Json) (current : Path) {step : Step}
    (goes : step.movement.isAnchor = false) (paths : List Path) :
    selectStep document current step paths =
      paths.flatMap fun path => selectStep document path step [path] := by
  simp only [selectStep_eq_expand document _ goes, expand, List.flatMap_singleton]

theorem selectSteps_eq_flatMap (document : Json) {steps : List Step}
    (go : ∀ step ∈ steps, step.movement.isAnchor = false) :
    ∀ (current : Path) (paths : List Path), selectSteps document current steps paths =
      paths.flatMap fun path => selectSteps document path steps [path] := by
  induction steps with
  | nil => intro current paths; simp [selectSteps]
  | cons step rest ih =>
    intro current paths
    have later := ih fun step listed => go step (List.mem_cons_of_mem _ listed)
    have one := selectStep_eq_flatMap document current (go step (List.mem_cons_self ..)) paths
    rw [selectSteps, later, one, List.flatMap_assoc]
    apply List.flatMap_congr
    intro path _
    rw [selectSteps, later path]

/-! ## Reading on -/

theorem skipBlanks_eq_of_blanks {here there : Cursor} (between : Blanks here there) :
    here.skipBlanks = there.skipBlanks :=
  skipBlanks_eq (between.trans (blanks_skipBlanks there)) (fresh_skipBlanks there)

theorem accessors_of_blanks {size : Nat} {last : Step} {here there : Cursor}
    (between : Blanks here there) :
    accessors (size + 1) last here = accessors (size + 1) last there := by
  rw [accessors, accessors, skipBlanks_eq_of_blanks between]

theorem accessors_relabel {size : Nat} {last : Step} {here : Cursor} {parsed : Parsed}
    (found : accessors size last here = .ok parsed) (long : 2 ≤ parsed.steps.length)
    (other : Step) :
    accessors size other here = .ok { parsed with steps := other :: parsed.steps.tail } := by
  cases size with
  | zero => cases found
  | succ size =>
    rcases accessors_eq_ok_iff.mp found with ⟨-, found⟩ | ⟨step, there, later, read, behind, rfl⟩
    · obtain ⟨final, only, -⟩ := finish_sound found
      rw [only] at long
      simp at long
    · exact accessors_eq_ok_iff.mpr (.inr ⟨step, there, later, read, behind, rfl⟩)

section ReadOn

variable {distance : Nat} {after : List Char} {stop : Cursor} (later : Parsed)

/-- Where a query is read to the end of its text, reading goes on with what comes behind. -/
theorem accessors_append
    (behind : ∀ last size, after.length < size →
      accessors size last (stop.place distance after) =
        .ok { later with steps := last :: later.steps })
    (closed : Closed later.compared later.rest) (fuel : Nat) :
    ∀ size last here parsed, accessors fuel last here = .ok parsed →
      parsed.compared = false → parsed.rest = stop → Settled after here.rest →
      here.rest.length + after.length < size →
      accessors size (last.shift distance) (here.place distance after) =
        .ok { later with steps := parsed.steps.map (Step.shift distance) ++ later.steps } := by
  -- only the last cursor changes: there the text that was at its end goes on
  induction fuel with
  | zero =>
    intro size last here parsed found
    cases found
  | succ fuel ih =>
    intro size last here parsed found plain same settled room
    obtain ⟨size, rfl⟩ := Nat.exists_eq_add_one_of_ne_zero (Nat.ne_zero_of_lt room)
    rcases accessors_eq_ok_iff.mp found with ⟨-, found⟩ | ⟨step, there, tail, read, rest, rfl⟩
    · obtain ⟨final, only, ending⟩ := finish_sound found
      rw [plain, same] at ending
      cases ending with
      | plain blanks =>
        rw [accessors_of_blanks blanks.place, behind _ _ (by omega), only]
        rfl
    · obtain ⟨further, shorter⟩ := accessor?_progress read
      have whole := ih size step there tail rest plain same (settled.of_suffix further) (by omega)
      exact accessors_place_accessor (accessors_place fuel size) read whole closed settled
        (by omega)

end ReadOn

theorem exists_read_of_compile {text : String} {plan : Plan} (compiled : compile text = .ok plan)
    (uncompared : endsCompared text = false) :
    ∃ steps, query (accessors (text.length + 1)) (Cursor.start text) =
        .ok ⟨steps, false, ⟨text.length, []⟩⟩ ∧ plan = .mk steps text.length := by
  obtain ⟨⟨steps, compared, rest⟩, read, blank, rfl⟩ := compile_eq_ok_iff_read.mp compiled
  have plain : compared = false := by rwa [endsCompared, read] at uncompared
  subst plain
  have ends : rest.rest = [] := query_rest_eq_nil read rfl blank
  have whole := (query_sound (accessors_sound _) read).follows.offset_add_length
  have offset : rest.offset = text.length := by
    simpa [ends, Cursor.start, String.length_toList] using whole
  have stop : rest = ⟨text.length, []⟩ := by
    cases rest
    simp_all
  refine ⟨steps, ?_, ?_⟩
  · rw [read, stop]
  · rw [stopOf_plain, stop]

theorem query_closed {fuel : Nat} {here : Cursor} {parsed : Parsed}
    (found : query (accessors fuel) here = .ok parsed)
    (blank : ∀ c ∈ (stopOf parsed).rest, Text.isBlank c = true) :
    Closed parsed.compared parsed.rest := by
  cases compared : parsed.compared with
  | true => exact .inl rfl
  | false =>
    have plain : stopOf parsed = parsed.rest := by
      rw [stopOf, compared]
      rfl
    rw [plain] at blank
    exact .inr (.inl (query_rest_eq_nil found compared blank))

theorem exists_read_of_compile_current {text : String} {plan : Plan}
    (compiled : compile ("@" ++ text) = .ok plan) :
    ∃ rest parsed, plan = .mk (.anchor .current :: rest) (stopOf parsed).offset ∧
      parsed.steps = .anchor .current :: rest ∧ rest ≠ [] ∧
      (∀ step ∈ rest, step.movement.isAnchor = false) ∧
      (∀ c ∈ (stopOf parsed).rest, Text.isBlank c = true) ∧
      Closed parsed.compared parsed.rest ∧
      accessors (text.length + 2) (.anchor .current) ⟨1, text.toList⟩ = .ok parsed := by
  obtain ⟨parsed, read, blank, rfl⟩ := compile_eq_ok_iff_read.mp compiled
  obtain ⟨-, first, near, anchored, read', long⟩ := query_eq_ok_iff.mp read
  have start : Cursor.start ("@" ++ text) = ⟨0, '@' :: text.toList⟩ := by
    simp [Cursor.start]
  have size : ("@" ++ text).length + 1 = text.length + 2 := by
    rw [String.length_append]
    change 1 + text.length + 1 = _
    omega
  rw [start] at anchored
  cases anchored
  rw [size] at read'
  have behind := accessors_sound _ _ _ _ read'
  obtain ⟨rest, steps, go⟩ := behind.exists_rest long
  have some' : rest ≠ [] := by
    rintro rfl
    rw [steps] at long
    simp at long
  exact ⟨rest, parsed, by rw [steps], steps, some', go, blank, query_closed read blank, read'⟩

theorem Cursor.place_nil (distance : Nat) (cursor : Cursor) :
    cursor.place distance [] = ⟨cursor.offset + distance, cursor.rest⟩ := by
  rw [Cursor.place, List.append_nil]

theorem Closed.place_nil {distance : Nat} {compared : Bool} {here : Cursor}
    (closed : Closed compared here) : Closed compared (here.place distance []) := by
  rwa [Cursor.place_nil]

theorem stopOf_place (distance : Nat) (parsed : Parsed) (steps : List Step) :
    stopOf ⟨steps, parsed.compared, parsed.rest.place distance []⟩ =
      (stopOf parsed).place distance [] := by
  simp only [stopOf, Cursor.place_nil]
  split
  · simp only [Cursor.advance, Nat.add_right_comm]
  · rfl

theorem accessors_elsewhere {fuel offset : Nat} {first : Step} {text : List Char} {tail : Parsed}
    (read : accessors fuel first ⟨offset, text⟩ = .ok { tail with steps := first :: tail.steps })
    (some' : tail.steps ≠ []) (closed : Closed tail.compared tail.rest) {size : Nat}
    (room : text.length < size) (distance : Nat) (last : Step) :
    accessors size last ⟨offset + distance, text⟩ =
      .ok { tail.place distance [] with steps := last :: (tail.place distance []).steps } := by
  have closed' : Closed tail.compared (tail.rest.place distance []) := closed.place_nil
  have moved := accessors_place _ size _ _ _ read closed' (.inl rfl) room
  have long : 2 ≤ ((first :: tail.steps).map (Step.shift distance)).length := by
    rw [List.length_map, List.length_cons]
    exact Nat.succ_le_succ (List.length_pos_of_ne_nil some')
  have relabelled := accessors_relabel moved long last
  rwa [Cursor.place_nil] at relabelled

theorem accessors_of_current {text : String} {parsed : Parsed} {rest : List Step}
    (read : accessors (text.length + 2) (.anchor .current) ⟨1, text.toList⟩ = .ok parsed)
    (split : parsed.steps = .anchor .current :: rest) (some' : rest ≠ [])
    (closed : Closed parsed.compared parsed.rest) {size : Nat} (room : text.toList.length < size)
    (distance : Nat) (last : Step) :
    accessors size last ⟨1 + distance, text.toList⟩ =
      .ok ⟨last :: rest.map (Step.shift distance), parsed.compared,
        parsed.rest.place distance []⟩ := by
  let tail : Parsed := { parsed with steps := rest }
  have read' : accessors (text.length + 2) (.anchor .current) ⟨1, text.toList⟩ =
      .ok { tail with steps := .anchor .current :: tail.steps } := by
    rw [read, ← split]
  exact accessors_elsewhere read' some' closed room distance last

theorem query_append {a b : String} {steps rest : List Step} {parsed : Parsed}
    (before : query (accessors (a.length + 1)) (Cursor.start a) =
      .ok ⟨steps, false, ⟨a.length, []⟩⟩)
    (clear : ¬ EmptyOrder a.toList)
    (behind : accessors (b.length + 2) (.anchor .current) ⟨1, b.toList⟩ = .ok parsed)
    (split : parsed.steps = .anchor .current :: rest) (some' : rest ≠ [])
    (closed : Closed parsed.compared parsed.rest) :
    query (accessors ((a ++ b).length + 1)) (Cursor.start (a ++ b)) =
      .ok ⟨steps ++ rest.map (Step.shift (a.length - 1)), parsed.compared,
        parsed.rest.place (a.length - 1) []⟩ := by
  obtain ⟨filled, first, near, anchored, read, long⟩ := query_eq_ok_iff.mp before
  obtain ⟨movement, rfl, written⟩ := anchor_sound anchored
  have inside : near.rest <:+ a.toList := written.follows.suffix
  have length := inside.length_le
  have positive : 0 < a.toList.length := List.length_pos_of_ne_nil filled
  rw [String.length_toList] at length positive
  have start : Cursor.start (a ++ b) = (Cursor.start a).place 0 b.toList := by
    simp [Cursor.start, Cursor.place]
  have stop : (⟨a.length, []⟩ : Cursor).place 0 b.toList = ⟨1 + (a.length - 1), b.toList⟩ := by
    simp only [Cursor.place, List.nil_append, Cursor.mk.injEq, and_true]
    omega
  let tail : Parsed := ⟨rest.map (Step.shift (a.length - 1)), parsed.compared,
    parsed.rest.place (a.length - 1) []⟩
  have later : ∀ last size, b.toList.length < size →
      accessors size last ((⟨a.length, []⟩ : Cursor).place 0 b.toList) =
        .ok { tail with steps := last :: tail.steps } := by
    intro last size room
    rw [stop]
    exact accessors_of_current behind split some' closed room (a.length - 1) last
  have room : near.rest.length + b.toList.length < (a ++ b).length + 1 := by
    rw [String.length_append, String.length_toList]
    omega
  have whole := accessors_append tail later closed.place_nil _ _ _ near _ read rfl rfl
    (Settled.of_suffix (.inr clear) inside) room
  rw [map_shift_zero] at whole
  rw [start]
  refine query_eq_ok_iff.mpr ⟨Cursor.place_rest_ne_nil filled, .anchor movement, _, ?_, whole, ?_⟩
  · exact anchor_place anchored filled
  · rw [List.length_append]
    exact Nat.le_trans long (Nat.le_add_right ..)

theorem select_append {document : Json} {current : Path} {front rest : List Step}
    (go : ∀ step ∈ rest, step.movement.isAnchor = false) (distance : Nat)
    (stop stop' stop'' : Int) :
    (Plan.mk (front ++ rest.map (Step.shift distance)) stop).select document current =
      ((Plan.mk front stop').select document current).flatMap fun path =>
        (Plan.mk (.anchor .current :: rest) stop'').select document path := by
  have alike : ∀ paths, selectSteps document current (rest.map (Step.shift distance)) paths =
      selectSteps document current rest paths :=
    selectSteps_map_shift rest fun _ plan _ _ => selectPlan_shift plan
  rw [Plan.select, Plan.select, selectPlan, selectPlan, selectSteps_append, alike,
    selectSteps_eq_flatMap document go]
  rfl

/-- A text that is read behind a current anchor is read behind a query too, and then selects
from every node that the query selects what it selects from that node. -/
theorem compile_append (a b : String) (first second : Plan) (before : compile a = .ok first)
    (uncompared : endsCompared a = false) (clear : ¬ EmptyOrder a.toList)
    (behind : compile ("@" ++ b) = .ok second) :
    ∃ joined, compile (a ++ b) = .ok joined ∧
      joined.steps = first.steps ++
        (second.steps.filter fun step => !step.movement.isAnchor).map
          (Step.shift (a.length - 1)) ∧
      ∀ document current, select (some joined) document current =
        (select (some first) document current).flatMap fun path =>
          select (some second) document path := by
  obtain ⟨steps, read, rfl⟩ := exists_read_of_compile before uncompared
  obtain ⟨rest, parsed, rfl, split, some', go, blank, closed, read'⟩ :=
    exists_read_of_compile_current behind
  have whole := query_append read clear read' split some' closed
  have stop := stopOf_place (a.length - 1) parsed (steps ++ rest.map (Step.shift (a.length - 1)))
  refine ⟨_, compile_eq_ok_iff_read.mpr ⟨_, whole, ?_, rfl⟩, ?_, ?_⟩
  · rwa [stop, Cursor.place_nil]
  · have kept : (rest.filter fun step => !step.movement.isAnchor) = rest := by
      rw [List.filter_eq_self]
      intro step listed
      rw [go step listed, Bool.not_false]
    have dropped : (!(Step.anchor .current : Step).movement.isAnchor) = false := rfl
    rw [Plan.steps, Plan.steps, Plan.steps, List.filter_cons_of_neg (by rw [dropped]; decide), kept]
  · intro document current
    exact select_append go _ _ _ _

theorem compile_append_filters :
    let first : Plan := .mk [.anchor .root, .keyed .children (some (.name "a")) none false,
      .filter .children
        (.mk [.anchor .current,
          .keyed .children (some (.name "n")) (some ⟨.less, .num (.int 3)⟩) false] 11) false] 13
    let second : Plan := .mk [.anchor .current,
      .keyed .descendants (some (.name "b")) none false,
      .filter .children
        (.mk [.anchor .current, .keyed .children (some (.name "c")) none false] 11) false] 13
    let leaf : Json := .obj [("c", .null)]
    let document : Json := .obj [("a", .arr [.obj [("n", .num (.int 3)), ("b", leaf)],
      .obj [("n", .num (.int 2)), ("b", leaf), ("d", .obj [("b", .arr [leaf, .null])])]])]
    compile "$.a[?(@.n<3)]" = .ok first ∧ endsCompared "$.a[?(@.n<3)]" = false ∧
      ¬ EmptyOrder "$.a[?(@.n<3)]".toList ∧ compile ("@" ++ " ..b[?(@.c)]") = .ok second ∧
      ∃ joined, compile ("$.a[?(@.n<3)]" ++ " ..b[?(@.c)]") = .ok joined ∧
        joined.innerStops = [11, 23] ∧
        select (some joined) document [] =
          [[.name "a", .index 1, .name "b"],
            [.name "a", .index 1, .name "d", .name "b", .index 0]] := by
  intro first second leaf document
  have before : compile "$.a[?(@.n<3)]" = .ok first := rfl
  have uncompared : endsCompared "$.a[?(@.n<3)]" = false := rfl
  have clear : ¬ EmptyOrder "$.a[?(@.n<3)]".toList := by decide +kernel
  have text : "@" ++ " ..b[?(@.c)]" = "@ ..b[?(@.c)]" := by
    rw [← String.toList_inj, String.toList_append]
    rfl
  have behind : compile ("@" ++ " ..b[?(@.c)]") = .ok second := by
    rw [text]
    rfl
  obtain ⟨joined, compiled, steps, selects⟩ :=
    compile_append "$.a[?(@.n<3)]" " ..b[?(@.c)]" first second before uncompared clear behind
  refine ⟨before, uncompared, clear, behind, joined, compiled, ?_, ?_⟩
  · have whole : joined = .mk joined.steps joined.stop := by
      cases joined
      rfl
    rw [whole, Plan.innerStops, steps]
    rfl
  · rw [selects]
    decide

end PathQuery
