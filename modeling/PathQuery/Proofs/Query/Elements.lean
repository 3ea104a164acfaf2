import PathQuery.Proofs.Query.Continuation
import PathQuery.Proofs.Query.Partition

/-!
# Filters behind an array and behind its elements

A filter behind an array tests the elements of the array, and a filter behind a
star in brackets tests the elements that the star goes to.  Where no element is
an array itself, the two differ in null alone, which nothing goes on from: the
first one tests it, the second one does not (`array_filters_agree`).  Only a
filter that asks from the root can hold of null.
-/

set_option autoImplicit false

namespace PathQuery

open Grammar Compile Evaluate

/-- The query in a filter asks from the root, whatever node is tested. -/
def AsksRoot (text : String) : Prop :=
  ['$'] <+: text.toList ∨ ['!', '$'] <+: text.toList

instance (text : String) : Decidable (AsksRoot text) :=
  inferInstanceAs (Decidable (_ ∨ _))

def Plan.AsksNode : Plan → Prop
  | .mk steps _ => ∃ rest, steps = .anchor .current :: rest ∧ rest ≠ [] ∧
      ∀ step ∈ rest, step.movement.isAnchor = false

theorem anchor_eq_current {here near : Cursor} {first : Step}
    (anchored : anchor here = (first, near)) (other : here.rest.head? ≠ some '$') :
    first = .anchor .current := by
  rw [anchor.eq_def] at anchored
  split at anchored
  · rename_i rest text
    rw [text] at other
    exact absurd rfl other
  · cases anchored
    rfl
  · cases anchored
    rfl

theorem head_ne_of_not_asksRoot {text : String} (relative : ¬ AsksRoot text) {here : Cursor}
    (whole : here.rest = text.toList ++ [')', ']']) :
    (if here.rest.head? = some '!' then here.advance 1 else here).rest.head? ≠ some '$' := by
  rw [AsksRoot, not_or] at relative
  generalize text.toList = body at relative whole
  obtain ⟨plain, marked⟩ := relative
  rcases body with _ | ⟨c, more⟩
  · simp [whole]
  split
  · rename_i mark
    have same : c = '!' := by simpa [whole] using mark
    subst same
    rcases more with _ | ⟨d, more⟩
    · simp [Cursor.advance, whole]
    · simpa [Cursor.advance, whole, eq_comm] using marked
  · simpa [whole, eq_comm] using plain

theorem asksNode_of_query {fuel : Nat} {inside : Cursor} {parsed : Parsed}
    (read : query (accessors fuel) inside = .ok parsed) (other : inside.rest.head? ≠ some '$')
    (negated : Bool) (stop : Int) : (Plan.mk (turned negated parsed.steps) stop).AsksNode := by
  obtain ⟨-, first, near, anchored, behind, long⟩ := query_eq_ok_iff.mp read
  obtain ⟨rest, split, go⟩ := (accessors_sound _ _ _ _ behind).exists_rest long
  have current := anchor_eq_current anchored other
  subst current
  rcases List.eq_nil_or_concat' rest with rfl | ⟨before, last, rfl⟩
  · simp [split] at long
  have goes : last.movement.isAnchor = false := go last (by simp)
  have onward : ∀ final : Step, final.movement.isAnchor = false →
      (Plan.mk ((.anchor .current :: before) ++ [final]) stop).AsksNode := by
    intro final goes
    refine ⟨before ++ [final], rfl, by simp, fun step listed => ?_⟩
    rcases List.mem_append.mp listed with listed | listed
    · exact go step (List.mem_append_left _ listed)
    · rwa [List.mem_singleton.mp listed]
  rw [split, ← List.cons_append]
  cases negated with
  | false => exact onward last goes
  | true =>
    rw [turned, if_pos rfl, negateLast_append]
    exact onward last.negate (by rwa [Step.movement_negate])

theorem Behind.exists_later {movement : Movement} {plan : Plan} {negated : Bool}
    {here there : Cursor} {steps : List Step} {compared : Bool}
    (behind : Behind (.filter movement plan negated) here steps compared there) :
    ∃ later, steps = .filter movement plan negated :: later ∧
      ∀ step ∈ later, step.movement.isAnchor = false := by
  cases behind with
  | ending ending =>
    cases ending with
    | plain => exact ⟨[], rfl, nofun⟩
  | accessor blanks accessor behind =>
    have long := List.length_pos_of_ne_nil behind.steps_ne_nil
    exact (Behind.accessor blanks accessor behind).exists_rest (Nat.succ_le_succ long)

theorem ReadsOn.exists_filter {offset : Nat} {text : String} {tail : Parsed}
    (reads : ReadsOn offset ('[' :: '?' :: '(' :: (text.toList ++ [')', ']'])) tail) :
    ∃ test later, tail.steps = .filter .children test false :: later ∧
      (∀ step ∈ later, step.movement.isAnchor = false) ∧ (¬ AsksRoot text → test.AsksNode) := by
  have read := reads.read (.anchor .current) _ (Nat.lt_succ_self _)
  rcases accessors_eq_ok_iff.mp read with ⟨-, found⟩ | ⟨step, there, later, first, behind, same⟩
  · obtain ⟨final, only, -⟩ := finish_sound found
    exact absurd (List.cons.inj only).2 reads.goes
  rw [skipBlanks_bracket rfl] at first
  obtain ⟨pair, found, equal⟩ := map_eq_ok first
  cases equal
  obtain ⟨parsed, inner, -, rfl⟩ := exists_read_of_filter found
  obtain ⟨onward, split, go⟩ := (accessors_sound _ _ _ _ behind).exists_later
  have steps : tail.steps = later.steps := (List.cons.inj (congrArg Parsed.steps same)).2
  refine ⟨_, onward, steps.trans split, go, fun relative => ?_⟩
  have asks := asksNode_of_query inner (head_ne_of_not_asksRoot relative rfl)
  split
  · exact asks true _
  · exact asks false _

/-- At a path stands an array none of whose elements is an array. -/
def Json.FlatArrayAt (document : Json) (path : Path) : Prop :=
  ∃ elements, document.get? path = some (.arr elements) ∧
    ∀ element ∈ elements, element.isArray = false

def elementPaths (path : Path) (elements : List Json) : List Path :=
  (Json.arr elements).children.map fun child => path ++ [child.1]

section Flat

variable {document : Json} {path : Path} {elements : List Json}
  (found : document.get? path = some (.arr elements))

include found

theorem get?_element (position : Nat) :
    document.get? (path ++ [.index position]) = elements[position]? := by
  rw [Json.get?_append, found, Option.bind_some, Json.get?_cons]
  change elements[position]?.bind _ = _
  cases elements[position]? with
  | none => rfl
  | some value => rw [Option.bind_some, Json.get?_nil]

theorem exists_of_mem_elementPaths {node : Path} (listed : node ∈ elementPaths path elements) :
    ∃ value ∈ elements, document.get? node = some value := by
  obtain ⟨⟨key, value⟩, child, rfl⟩ := List.mem_map.mp listed
  obtain ⟨position, rfl, there⟩ := Json.mem_children_arr.mp child
  exact ⟨value, List.mem_of_getElem? there, (get?_element found position).trans there⟩

theorem selectStep_everyStep (current : Path) :
    selectStep document current everyStep [path] = elementPaths path elements := by
  have asked : everyStep.asked document [path] = elementPaths path elements := by
    rw [everyStep, Step.asked, expand, List.flatMap_singleton]
    simp [Json.value_resolve, found, Json.isNull, proposed, Json.descendants_false, Json.childNode,
      elementPaths]
  rw [selectStep_eq_filter document current rfl, asked, List.filter_eq_self]
  intro node listed
  obtain ⟨value, -, there⟩ := exists_of_mem_elementPaths found listed
  obtain ⟨child, -, rfl⟩ := List.mem_map.mp listed
  have owned : (document.resolve (path ++ [child.1])).owned = true := by
    rw [Json.owned_resolve_iff]
    simp [there]
  simp [everyStep, Step.verdict?, Step.negated, owned]

theorem testedAt_flat (plain : ∀ element ∈ elements, element.isArray = false) :
    testedAt document path = elementPaths path elements := by
  have all : ((Json.arr elements).children.filter fun child => !child.2.isArray) =
      (Json.arr elements).children := by
    rw [List.filter_eq_self]
    rintro ⟨key, child⟩ listed
    obtain ⟨position, -, there⟩ := Json.mem_children_arr.mp listed
    rw [plain child (List.mem_of_getElem? there), Bool.not_false]
  rw [testedAt, found]
  simp only [all]
  rfl

end Flat

def Json.nullAt (document : Json) (path : Path) : Bool := (document.resolve path).value.isNull

section Null

variable {document : Json}

theorem selectStep_of_nullAt {step : Step} (goes : step.movement.isAnchor = false) {path : Path}
    (null : document.nullAt path = true) (current : Path) :
    selectStep document current step [path] = [] := by
  rw [Json.nullAt] at null
  rw [selectStep_eq_expand document current goes, expand, List.flatMap_singleton]
  simp only [null, if_true]

theorem selectStep_filter_nullAt {step : Step} (goes : step.movement.isAnchor = false)
    (current : Path) (paths : List Path) :
    selectStep document current step (paths.filter fun path => !document.nullAt path) =
      selectStep document current step paths := by
  rw [selectStep_eq_flatMap document current goes, selectStep_eq_flatMap document current goes]
  induction paths with
  | nil => rfl
  | cons path rest ih =>
    rw [List.flatMap_cons, ← ih]
    cases null : document.nullAt path with
    | false => rw [List.filter_cons_of_pos (by simp [null]), List.flatMap_cons]
    | true =>
      rw [List.filter_cons_of_neg (by simp [null]), selectStep_of_nullAt goes null,
        List.nil_append]

theorem selectPlan_of_nullAt {plan : Plan} (asks : plan.AsksNode) {path : Path}
    (null : document.nullAt path = true) : selectPlan document path plan = [] := by
  obtain ⟨steps, stop⟩ := plan
  obtain ⟨onto, rfl, some', go⟩ := asks
  obtain ⟨step, rest, rfl⟩ := List.exists_cons_of_ne_nil some'
  have goes := go step (List.mem_cons_self ..)
  have onward : ∀ later ∈ rest, later.movement.isAnchor = false :=
    fun later listed => go later (List.mem_cons_of_mem _ listed)
  have nowhere : selectStep document path step [path] = [] := selectStep_of_nullAt goes null path
  change selectSteps document path rest (selectStep document path step [path]) = []
  rw [nowhere, selectSteps_eq_flatMap document onward]
  rfl

theorem testedFrom_eq_filter {nodes : List Path}
    (plain : ∀ node ∈ nodes, ∃ value, document.get? node = some value ∧ value.isArray = false) :
    testedFrom document .children nodes = nodes.filter fun node => !document.nullAt node := by
  rw [testedFrom_children]
  induction nodes with
  | nil => rfl
  | cons node rest ih =>
    obtain ⟨value, found, other⟩ := plain node (List.mem_cons_self ..)
    have null : document.nullAt node = value.isNull := by
      rw [Json.nullAt, Json.value_resolve, found, Option.getD_some]
    rw [List.flatMap_cons, ih fun later listed => plain later (List.mem_cons_of_mem _ listed),
      testedAt, found]
    cases value with
    | null => rw [List.filter_cons_of_neg (by simp [null, Json.isNull])]; rfl
    | arr elements => cases other
    | _ => rw [List.filter_cons_of_pos (by simp [null, Json.isNull])]; rfl

end Null

section Both

variable {document : Json} {starts : List Path}
  (flat : ∀ start ∈ starts, document.FlatArrayAt start)

include flat

theorem exists_of_mem_tested {node : Path} (listed : node ∈ starts.flatMap (testedAt document)) :
    ∃ start ∈ starts, ∃ elements, document.get? start = some (.arr elements) ∧
      ∃ value ∈ elements, document.get? node = some value ∧ value.isArray = false := by
  obtain ⟨start, member, inside⟩ := List.mem_flatMap.mp listed
  obtain ⟨elements, found, plain⟩ := flat start member
  rw [testedAt_flat found plain] at inside
  obtain ⟨value, element, there⟩ := exists_of_mem_elementPaths found inside
  exact ⟨start, member, elements, found, value, element, there, plain value element⟩

/-- Behind a star a filter keeps of the elements what it keeps without it, but for null. -/
theorem selectStep_filter_everyStep (current : Path) (test : Plan) :
    selectStep document current (.filter .children test false)
        (selectStep document current everyStep starts) =
      (selectStep document current (.filter .children test false) starts).filter fun path =>
        !document.nullAt path := by
  have star : selectStep document current everyStep starts =
      starts.flatMap (testedAt document) := by
    rw [selectStep_eq_flatMap document current rfl]
    apply List.flatMap_congr
    intro start member
    obtain ⟨elements, found, plain⟩ := flat start member
    rw [selectStep_everyStep found, testedAt_flat found plain]
  have plain : ∀ node ∈ starts.flatMap (testedAt document), ∃ value,
      document.get? node = some value ∧ value.isArray = false := by
    intro node listed
    obtain ⟨-, -, -, -, value, -, there, other⟩ := exists_of_mem_tested flat listed
    exact ⟨value, there, other⟩
  rw [selectStep_filter document current rfl, selectStep_filter document current rfl, star,
    testedFrom_eq_filter plain, testedFrom_children, List.filter_filter, List.filter_filter]
  simp only [Bool.and_comm]

theorem filter_nullAt_eq_self (current : Path) {test : Plan}
    (either : test.AsksNode ∨ ∀ start ∈ starts, ∀ elements,
      document.get? start = some (.arr elements) → .null ∉ elements) :
    (selectStep document current (.filter .children test false) starts).filter
        (fun path => !document.nullAt path) =
      selectStep document current (.filter .children test false) starts := by
  rw [List.filter_eq_self]
  intro node listed
  rw [selectStep_filter document current rfl, testedFrom_children, List.mem_filter] at listed
  obtain ⟨tested, kept⟩ := listed
  rw [Bool.not_eq_true', Bool.eq_false_iff]
  intro null
  rcases either with asks | absent
  · rw [selectPlan_of_nullAt asks null] at kept
    cases kept
  · obtain ⟨start, member, elements, found, value, element, there, -⟩ :=
      exists_of_mem_tested flat tested
    rw [Json.nullAt, Json.value_resolve, there, Option.getD_some, Json.isNull_iff] at null
    exact absent start member elements found (null ▸ element)

theorem selectSteps_everyStep (current : Path) {test : Plan} {later : List Step}
    (go : ∀ step ∈ later, step.movement.isAnchor = false)
    (either : test.AsksNode ∨ later ≠ [] ∨ ∀ start ∈ starts, ∀ elements,
      document.get? start = some (.arr elements) → .null ∉ elements) :
    selectSteps document current (everyStep :: .filter .children test false :: later) starts =
      selectSteps document current (.filter .children test false :: later) starts := by
  rw [selectSteps, selectSteps, selectSteps, selectStep_filter_everyStep flat]
  by_cases last : later = []
  · have either' := either.imp_right fun rest => rest.resolve_left fun further => further last
    rw [filter_nullAt_eq_self flat current either']
  · obtain ⟨step, rest, rfl⟩ := List.exists_cons_of_ne_nil last
    rw [selectSteps, selectSteps, selectStep_filter_nullAt (go step (List.mem_cons_self ..))]

end Both

/-! ## Both spellings -/

/-- Behind arrays none of whose elements is an array, a filter and a filter behind a star in
brackets select the same, unless it is the last accessor, asks from the root and meets null: null is
then kept by the first one alone. -/
theorem array_filters_agree {a text : String} {find : Json → Path → List Path} {first : Plan}
    (front : Front a find) (compiled : compile (a ++ "[?(" ++ text ++ ")]") = .ok first) :
    ∃ second, compile (a ++ "[*][?(" ++ text ++ ")]") = .ok second ∧
      ∀ document current, (∀ path ∈ find document current, document.FlatArrayAt path) →
        ((¬ AsksRoot text ∨ stepCount a + 1 < first.steps.length ∨
            (∀ path ∈ find document current, ∀ elements,
              document.get? path = some (.arr elements) → .null ∉ elements)) →
          select (some second) document current = select (some first) document current) ∧
        (first.steps.length = stepCount a + 1 →
          select (some second) document current =
            (select (some first) document current).filter fun path => !document.nullAt path) := by
  obtain ⟨before, count, finds, compiles⟩ := front.compile_iff
  have opens : ("[?(" ++ (text ++ ")]")).toList =
      '[' :: '?' :: '(' :: (text.toList ++ [')', ']']) := by
    simp [String.toList_append]
  have opens' : ("[*][?(" ++ (text ++ ")]")).toList =
      '[' :: '*' :: ']' :: '[' :: '?' :: '(' :: (text.toList ++ [')', ']']) := by
    simp [String.toList_append]
  rw [String.append_assoc, String.append_assoc] at compiled ⊢
  obtain ⟨tail, reads, rfl⟩ := (compiles _ _ opens first).mp compiled
  obtain ⟨test, later, split, go, asks⟩ := reads.exists_filter
  refine ⟨_, (compiles _ _ opens' _).mpr ⟨_, (reads.shift 3).behind_star, rfl⟩, ?_⟩
  intro document current flat
  have length : (before ++ tail.steps).length = stepCount a + 1 + later.length := by
    rw [List.length_append, count, split, List.length_cons]
    omega
  have selects : select (some (.mk (before ++ tail.steps) (stopOf tail).offset)) document current =
      selectSteps document current (.filter .children test false :: later)
        (find document current) := by
    rw [← split, ← finds, ← selectSteps_append]
    rfl
  have selects' : ∀ stop, select (some (.mk (before ++ everyStep ::
        tail.steps.map (Step.shift 3)) stop)) document current =
      selectSteps document current (everyStep :: .filter .children test false :: later)
        (find document current) := by
    intro stop
    rw [← split, ← finds]
    change selectSteps document current _ [] = _
    rw [selectSteps_append, selectSteps, selectSteps]
    exact selectSteps_map_shift tail.steps (fun _ plan _ _ => selectPlan_shift plan) _
  rw [selects, Plan.steps, length]
  refine ⟨fun either => ?_, fun last => ?_⟩
  · refine (selects' _).trans (selectSteps_everyStep flat current go ?_)
    rcases either with relative | further | absent
    · exact .inl (asks relative)
    · refine .inr (.inl ?_)
      rintro rfl
      exact Nat.lt_irrefl _ further
    · exact .inr (.inr absent)
  · have none' : later = [] := List.length_eq_zero_iff.mp (by omega)
    subst none'
    exact (selects' _).trans (selectStep_filter_everyStep flat current test)

/-- Both rows are kept where the root is asked, but null only without the star; where the row is
asked, the star does not matter. -/
theorem array_filters_agree_rows :
    let rows : Plan := .mk [.anchor .root, .keyed .children (some (.name "rows")) none false] 6
    let filtered (anchor : Movement) (name : String) : Plan := .mk (rows.steps ++ [.filter .children
      (.mk [.anchor anchor, .keyed .children (some (.name name)) none false] 13) false]) 15
    let document : Json :=
      .obj [("rows", .arr [.null, .obj [("ad", .null)]]), ("on", .bool true)]
    Front "$.rows" (select (some rows)) ∧
      compile ("$.rows" ++ "[?(" ++ "$.on" ++ ")]") = .ok (filtered .root "on") ∧
      compile ("$.rows" ++ "[?(" ++ "@.ad" ++ ")]") = .ok (filtered .current "ad") ∧
      (∀ path ∈ select (some rows) document [], document.FlatArrayAt path) ∧
      (filtered .root "on").steps.length = stepCount "$.rows" + 1 ∧ ¬ AsksRoot "@.ad" ∧
      select (some (filtered .root "on")) document [] =
        [[.name "rows", .index 0], [.name "rows", .index 1]] ∧
      (∃ second, compile ("$.rows" ++ "[*][?(" ++ "$.on" ++ ")]") = .ok second ∧
        select (some second) document [] = [[.name "rows", .index 1]]) ∧
      ∃ second, compile ("$.rows" ++ "[*][?(" ++ "@.ad" ++ ")]") = .ok second ∧
        select (some second) document [] = [[.name "rows", .index 1]] := by
  intro rows filtered document
  have front : Front "$.rows" (select (some rows)) := .query rfl rfl (by decide +kernel)
  have compiled : compile ("$.rows" ++ "[?(" ++ "$.on" ++ ")]") = .ok (filtered .root "on") := rfl
  have compiled' : compile ("$.rows" ++ "[?(" ++ "@.ad" ++ ")]") = .ok (filtered .current "ad") :=
    rfl
  have flat : ∀ path ∈ select (some rows) document [], document.FlatArrayAt path := by
    intro path listed
    have found : select (some rows) document [] = [[.name "rows"]] := by decide
    rw [found, List.mem_singleton] at listed
    subst listed
    exact ⟨_, rfl, by simp [Json.isArray]⟩
  have last : (filtered .root "on").steps.length = stepCount "$.rows" + 1 := rfl
  have relative : ¬ AsksRoot "@.ad" := by decide +kernel
  have both : select (some (filtered .root "on")) document [] =
      [[.name "rows", .index 0], [.name "rows", .index 1]] := by decide
  obtain ⟨second, compiles, selects⟩ := array_filters_agree front compiled
  obtain ⟨second', compiles', selects'⟩ := array_filters_agree front compiled'
  refine ⟨front, compiled, compiled', flat, last, relative, both, ⟨second, compiles, ?_⟩, second',
    compiles', ?_⟩
  · rw [(selects document [] flat).2 last, both]
    decide
  · rw [(selects' document [] flat).1 (.inl relative)]
    decide

/-- It is not so that behind flat arrays the star never matters: null is kept without it alone. -/
theorem not_array_filters_agree :
    ¬ ∀ (a text : String) (find : Json → Path → List Path) (first second : Plan), Front a find →
      compile (a ++ "[?(" ++ text ++ ")]") = .ok first →
      compile (a ++ "[*][?(" ++ text ++ ")]") = .ok second →
      ∀ document : Json, document.WellFormed →
        (∀ path ∈ find document [], document.FlatArrayAt path) →
        select (some second) document [] = select (some first) document [] := by
  intro agree
  let rows : Plan := .mk [.anchor .root, .keyed .children (some (.name "rows")) none false] 6
  let test (stop : Int) : Step := .filter .children
    (.mk [.anchor .root, .keyed .children (some (.name "on")) none false] stop) false
  let document : Json := .obj [("rows", .arr [.null]), ("on", .bool true)]
  have front : Front "$.rows" (select (some rows)) := .query rfl rfl (by decide +kernel)
  have wf : document.WellFormed := by
    simp [document, Json.WellFormed, Json.MembersWellFormed, Json.ElementsWellFormed]
  have flat : ∀ path ∈ select (some rows) document [], document.FlatArrayAt path := by
    intro path listed
    have found : select (some rows) document [] = [[.name "rows"]] := by decide
    rw [found, List.mem_singleton] at listed
    subst listed
    exact ⟨_, rfl, by simp [Json.isArray]⟩
  have same := agree "$.rows" "$.on" _ (.mk (rows.steps ++ [test 13]) 15)
    (.mk (rows.steps ++ [everyStep, test 16]) 18) front rfl rfl document wf flat
  exact absurd same (by decide)

end PathQuery
