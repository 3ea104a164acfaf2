import PathQuery.Proofs.Query.Keyed
import PathQuery.Proofs.Query.Negation

/-!
# Filters that ask one question

A chain goes from a node to one child after the other, each by its name or its
index, so a filter with a chain asks each node one question at most
(`answer?`).  The filter keeps the nodes that answer with yes and the marked one
those that answer with no; the others are dropped by both
(`chain_filters_partition`).
-/

set_option autoImplicit false

namespace PathQuery

open Grammar Compile Evaluate

/-- The nodes that are tested for one path: the node there, or in place of an array those of its
elements that are no arrays. -/
def testedAt (document : Json) (start : Path) : List Path :=
  match document.get? start with
  | none => []
  | some .null => []
  | some (.arr elements) =>
    ((Json.arr elements).children.filter fun child => !child.2.isArray).map fun child =>
      start ++ [child.1]
  | some _ => [start]

theorem testedFrom_children (document : Json) (starts : List Path) :
    testedFrom document .children starts = starts.flatMap (testedAt document) := by
  rw [testedFrom, expand]
  apply List.flatMap_congr
  intro start _
  rw [testedAt, Json.value_resolve]
  cases document.get? start with
  | none => rfl
  | some value =>
    cases value with
    | arr elements =>
      simp [tested, Json.isArray, Json.isNull, Json.descendants_false, Json.childNode,
        List.filter_map, Function.comp_def]
    | _ => rfl

def Selector.picksOne : Selector → Bool
  | .name _ => true
  | .index _ => true
  | _ => false

def childStep (selector : Selector) : Step := .keyed .children (some selector) none false

def next? (document : Json) (path : Path) (selector : Selector) : Option Path :=
  (document.get? path).bind fun value =>
    (selector.keysIn value).head?.map fun key => path ++ [key]

/-- Where one child after the other leads. -/
def follow? (document : Json) (selectors : List Selector) (path : Path) : Option Path :=
  selectors.foldlM (next? document) path

theorem follow?_concat (document : Json) (selectors : List Selector) (last : Selector)
    (path : Path) :
    follow? document (selectors ++ [last]) path =
      (follow? document selectors path).bind fun place => next? document place last := by
  rw [follow?, List.foldlM_append]
  simp [follow?]

theorem owned_resolve_concat {document value : Json} {path : Path}
    (found : document.get? path = some value) (key : Key) :
    (document.resolve (path ++ [key])).owned = value.owns key := by
  rw [Bool.eq_iff_iff, Json.owned_resolve_iff]
  simp [Json.get?_append, found, Json.owns]

theorem filter_proposed_child {document value : Json} {path : Path}
    (found : document.get? path = some value) {selector : Selector}
    (one : selector.picksOne = true) :
    ((proposed (some selector) false path value).filter fun place =>
        (document.resolve place).owned) = (next? document path selector).toList := by
  have owned := owned_resolve_concat found
  rw [next?, found, Option.bind_some]
  cases selector with
  | name text =>
    rw [proposed, namedPaths, Selector.keysIn]
    cases there : value.owns (.name text) with
    | false => simp [owned, there]
    | true => simp [owned, there]
  | index position =>
    rw [proposed, indexedPaths, Selector.keysIn]
    cases picked : position? position value with
    | none => rfl
    | some place =>
      obtain ⟨elements, -, -, there⟩ := position?_eq_some_iff.mp picked
      simp [owned, there]
  | names => cases one
  | wildcard => cases one

theorem next?_eq_none_of_isNull {document value : Json} {path : Path}
    (found : document.get? path = some value) (null : value.isNull = true) {selector : Selector}
    (one : selector.picksOne = true) : next? document path selector = none := by
  rw [next?, found]
  cases value with
  | null =>
    cases selector with
    | name text => rfl
    | index position => rfl
    | names => cases one
    | wildcard => cases one
  | _ => cases null

theorem filter_asked_child (document : Json) (path : Path) {selector : Selector}
    (one : selector.picksOne = true) :
    ((childStep selector).asked document [path]).filter
        (fun place => (document.resolve place).owned) =
      (next? document path selector).toList := by
  rw [childStep, Step.asked, expand, List.flatMap_singleton]
  simp only [Json.value_resolve]
  cases found : document.get? path with
  | none =>
    rw [next?, found]
    rfl
  | some value =>
    rw [Option.getD_some]
    split
    · rename_i null
      rw [next?_eq_none_of_isNull found null one]
      rfl
    · exact filter_proposed_child found one

theorem selectSteps_children (document : Json) (current : Path) {selectors : List Selector}
    (one : ∀ selector ∈ selectors, selector.picksOne = true) :
    ∀ path : Path, selectSteps document current (selectors.map childStep) [path] =
      (follow? document selectors path).toList := by
  induction selectors with
  | nil =>
    intro path
    rfl
  | cons selector rest ih =>
    intro path
    have first : selectStep document current (childStep selector) [path] =
        (next? document path selector).toList := by
      rw [← filter_asked_child document path (one selector (List.mem_cons_self ..)),
        selectStep_eq_filter document current rfl]
      apply List.filter_congr
      intro place _
      simp [childStep, Step.verdict?, Step.negated]
    rw [List.map_cons, selectSteps, first, follow?, List.foldlM_cons]
    cases next? document path selector with
    | none =>
      have go : ∀ step ∈ rest.map childStep, step.movement.isAnchor = false := by
        intro step listed
        obtain ⟨selector, -, rfl⟩ := List.mem_map.mp listed
        rfl
      rw [Option.toList_none, selectSteps_eq_flatMap document go]
      rfl
    | some place =>
      exact ih (fun selector listed => one selector (List.mem_cons_of_mem _ listed)) place

theorem isSome_get?_of_next? {document : Json} {path place : Path} {selector : Selector}
    (one : selector.picksOne = true) (leads : next? document path selector = some place) :
    (document.get? place).isSome = true := by
  have kept : place ∈ ((childStep selector).asked document [path]).filter
      fun place => (document.resolve place).owned := by
    rw [filter_asked_child document path one, leads, Option.toList_some]
    exact List.mem_singleton_self _
  exact ((Json.owned_resolve_iff document place).mp (List.mem_filter.mp kept).2).2

/-! ## The answer of a node -/

/-- What a chain asks of a node, if the node can tell: whether the value at its end satisfies the
comparison, or whether the last name is there in a value other than null. -/
def answer? (document : Json) (selectors : List Selector) (last : Selector)
    (test : Option Comparison) (node : Path) : Option Bool :=
  match test with
  | some comparison =>
    ((follow? document (selectors ++ [last]) node).bind document.get?).map comparison.holds
  | none =>
    (((follow? document selectors node).bind document.get?).filter fun holder =>
      !holder.isNull).map fun holder => !(last.keysIn holder).isEmpty

/-- A node that cannot tell: with a comparison, the chain leads nowhere; without one, there is
nothing to look the last name up in, or null. -/
def Undecided (document : Json) (selectors : List Selector) (last : Selector)
    (test : Option Comparison) (node : Path) : Prop :=
  match test with
  | some _ => follow? document (selectors ++ [last]) node = none
  | none =>
    (follow? document selectors node).bind document.get? = none ∨
      (follow? document selectors node).bind document.get? = some .null

theorem Json.isNull_iff (value : Json) : value.isNull = true ↔ value = .null := by
  cases value <;> simp [Json.isNull]

section Answer

variable {document : Json} {selectors : List Selector} {last : Selector} {node : Path}
  (one : ∀ selector ∈ selectors ++ [last], selector.picksOne = true)

include one

theorem verdicts_children (test : Option Comparison) :
    verdicts document node ((.anchor .current :: selectors.map childStep) ++
        [(childStep last).compare test]) =
      ((childStep last).asked document (follow? document selectors node).toList).map
        fun place => ((childStep last).compare test).verdict? document place := by
  have reached : selectSteps document node (.anchor .current :: selectors.map childStep) [] =
      (follow? document selectors node).toList :=
    selectSteps_children document node
      (fun selector listed => one selector (List.mem_append_left _ listed)) node
  rw [verdicts_concat, reached]
  rfl

theorem mem_verdicts_compared_iff (comparison : Comparison) (answer : Bool) :
    some answer ∈ verdicts document node ((.anchor .current :: selectors.map childStep) ++
        [(childStep last).compare (some comparison)]) ↔
      answer? document selectors last (some comparison) node = some answer := by
  have picks : last.picksOne = true := one last (by simp)
  rw [verdicts_children one, answer?, follow?_concat]
  cases follow? document selectors node with
  | none => simp [childStep, Step.asked, expand]
  | some place =>
    have owned : some answer ∈ ((childStep last).asked document [place]).map (fun child =>
          ((childStep last).compare (some comparison)).verdict? document child) ↔
        ∃ child ∈ ((childStep last).asked document [place]).filter fun child =>
            (document.resolve child).owned,
          comparison.holds (document.resolve child).value = answer := by
      simp [childStep, Step.compare, Step.verdict?, and_assoc]
    rw [filter_asked_child document place picks] at owned
    rw [Option.toList_some, owned, Option.bind_some]
    cases leads : next? document place last with
    | none => simp
    | some child =>
      obtain ⟨value, there⟩ := Option.isSome_iff_exists.mp (isSome_get?_of_next? picks leads)
      simp [Json.value_resolve, there]

theorem mem_verdicts_named_iff {text : String} (named : last = .name text) (answer : Bool) :
    some answer ∈ verdicts document node ((.anchor .current :: selectors.map childStep) ++
        [(childStep last).compare none]) ↔
      answer? document selectors last none node = some answer := by
  rw [verdicts_children one, answer?, named]
  cases follow? document selectors node with
  | none => simp [childStep, Step.asked, expand]
  | some place =>
    simp only [childStep, Step.asked, expand, Option.toList_some, List.flatMap_singleton,
      Json.value_resolve, Option.bind_some]
    cases found : document.get? place with
    | none => simp [Json.isNull]
    | some holder =>
      have asked : proposed (some (.name text)) false place holder = [place ++ [.name text]] := by
        simp [proposed, namedPaths]
      have there : (Selector.keysIn holder (.name text)).isEmpty = !holder.owns (.name text) := by
        cases owns : holder.owns (.name text) <;> simp [Selector.keysIn, owns]
      have owned := owned_resolve_concat found (.name text)
      cases null : holder.isNull with
      | true => simp [null]
      | false => simpa [null, asked, there, owned, Step.compare, Step.verdict?] using eq_comm

theorem mem_verdicts_children_iff {test : Option Comparison}
    (named : test = none → ∃ text, last = .name text) (answer : Bool) :
    some answer ∈ verdicts document node ((.anchor .current :: selectors.map childStep) ++
        [(childStep last).compare test]) ↔
      answer? document selectors last test node = some answer := by
  cases test with
  | some comparison => exact mem_verdicts_compared_iff one comparison answer
  | none =>
    obtain ⟨text, name⟩ := named rfl
    exact mem_verdicts_named_iff one name answer

theorem answer?_eq_none_iff (test : Option Comparison) :
    answer? document selectors last test node = none ↔
      Undecided document selectors last test node := by
  cases test with
  | some comparison =>
    have picks : last.picksOne = true := one last (by simp)
    rw [answer?, Undecided, Option.map_eq_none_iff, follow?_concat]
    cases follow? document selectors node with
    | none => simp
    | some place =>
      rw [Option.bind_some]
      cases leads : next? document place last with
      | none => simp
      | some child =>
        obtain ⟨value, there⟩ := Option.isSome_iff_exists.mp (isSome_get?_of_next? picks leads)
        simp [there]
  | none =>
    rw [answer?, Undecided, Option.map_eq_none_iff]
    cases (follow? document selectors node).bind document.get? with
    | none => simp
    | some holder => simp [Json.isNull_iff]

end Answer

/-- With a chain in it, a filter keeps the tested nodes that answer with yes, and the marked one
those that answer with no.  No node is kept by both, and those that cannot tell by neither. -/
theorem chain_filters_partition {a chain tail : String} {find : Json → Path → List Path}
    {selectors : List Selector} {last : Selector} {test : Option Comparison} {stop : Int}
    (front : Front a find)
    (compiled : compile chain =
      .ok (.mk (.anchor .current :: (selectors ++ [last]).map childStep) stop))
    (uncompared : endsCompared chain = false)
    (one : ∀ selector ∈ selectors ++ [last], selector.picksOne = true)
    (written : Tail tail test) (named : test = none → ∃ text, last = .name text) :
    ∃ kept dropped, compile (a ++ "[?(" ++ (chain ++ tail) ++ ")]") = .ok kept ∧
      compile (a ++ "[?(!" ++ (chain ++ tail) ++ ")]") = .ok dropped ∧
      ∀ document current,
        let nodes := (find document current).flatMap (testedAt document)
        select (some kept) document current =
            nodes.filter (fun node => answer? document selectors last test node = some true) ∧
          select (some dropped) document current =
            nodes.filter (fun node => answer? document selectors last test node = some false) ∧
          (∀ path ∈ select (some kept) document current,
            path ∉ select (some dropped) document current) ∧
          ∀ node ∈ nodes,
            (node ∉ select (some kept) document current ∧
                node ∉ select (some dropped) document current ↔
              Undecided document selectors last test node) := by
  have keyed : ∀ step ∈ (Plan.mk (.anchor .current :: (selectors ++ [last]).map childStep)
      stop).steps, step.isKeyed = true := by
    intro step listed
    rcases List.mem_cons.mp listed with rfl | listed
    · rfl
    · obtain ⟨selector, -, rfl⟩ := List.mem_map.mp listed
      rfl
  obtain ⟨before, final, split, enclosed⟩ := Enclosed.of_keyed written compiled uncompared keyed
  have whole : (.anchor .current :: selectors.map childStep) ++ [childStep last] =
      before ++ [final] := by
    rw [← split, Plan.steps, List.map_append]
    rfl
  obtain ⟨rfl, same⟩ := List.append_inj' whole rfl
  cases same
  have leads : Lead "".toList .children := .plain (by simp)
  obtain ⟨kept, dropped, compiled, compiled', found⟩ := front.select_marked leads enclosed
  rw [String.append_empty] at compiled compiled'
  refine ⟨kept, dropped, compiled, compiled', fun document current => ?_⟩
  obtain ⟨keeps, drops⟩ := found document current
  simp only [mem_verdicts_children_iff one named, testedFrom_children] at keeps drops
  refine ⟨keeps, drops, fun path here there => ?_, fun node listed => ?_⟩
  · rw [keeps, List.mem_filter, decide_eq_true_eq] at here
    rw [drops, List.mem_filter, decide_eq_true_eq, here.2] at there
    cases there.2
  · rw [keeps, drops, List.mem_filter, List.mem_filter, ← answer?_eq_none_iff one]
    simp only [listed, true_and, decide_eq_true_eq]
    rcases answer? document selectors last test node with _ | ⟨_ | _⟩ <;> simp

/-- Of the rows, the first has the tag last, the second elsewhere, and the third has no tags; the
fourth is an array and not tested. -/
theorem chain_filters_partition_last_tags :
    let rows : Plan := .mk [.anchor .root, .keyed .children (some (.name "rows")) none false] 6
    let selectors : List Selector := [.name "tags"]
    let last : Selector := .index (-1)
    let test : Option Comparison := some ⟨.equal, .str "ad"⟩
    let row (tags : List String) : Json := .obj [("tags", .arr (tags.map Json.str))]
    let document : Json :=
      .obj [("rows", .arr [row ["post", "ad"], row ["ad", "post"], row [], .arr []])]
    Front "$.rows" (select (some rows)) ∧
      compile "@.tags[-1]" =
        .ok (.mk (.anchor .current :: (selectors ++ [last]).map childStep) 10) ∧
      endsCompared "@.tags[-1]" = false ∧
      (∀ selector ∈ selectors ++ [last], selector.picksOne = true) ∧
      Tail ("==" ++ "\"ad\"") test ∧ (test = none → ∃ text, last = .name text) ∧
      ∃ kept dropped,
        compile ("$.rows" ++ "[?(" ++ ("@.tags[-1]" ++ ("==" ++ "\"ad\"")) ++ ")]") = .ok kept ∧
        compile ("$.rows" ++ "[?(!" ++ ("@.tags[-1]" ++ ("==" ++ "\"ad\"")) ++ ")]") =
          .ok dropped ∧
        select (some kept) document [] = [[.name "rows", .index 0]] ∧
        select (some dropped) document [] = [[.name "rows", .index 1]] ∧
        Undecided document selectors last test [.name "rows", .index 2] := by
  intro rows selectors last test row document
  have compiled : compile "$.rows" = .ok rows := rfl
  have front : Front "$.rows" (select (some rows)) := .query compiled rfl (by decide +kernel)
  have chain : compile "@.tags[-1]" =
      .ok (.mk (.anchor .current :: (selectors ++ [last]).map childStep) 10) := rfl
  have uncompared : endsCompared "@.tags[-1]" = false := rfl
  have one : ∀ selector ∈ selectors ++ [last],
      selector.picksOne = true := by decide
  have read : Json.read? "\"ad\"" = some (.str "ad") := rfl
  have written : Tail ("==" ++ "\"ad\"") test :=
    @Tail.compared .equal "\"ad\"" _ (by decide) (by decide +kernel) read
  have named : test = none → ∃ text, last = .name text := nofun
  obtain ⟨kept, dropped, there, there', found⟩ :=
    chain_filters_partition front chain uncompared one written named
  obtain ⟨keeps, drops, -, neither⟩ := found document []
  refine ⟨front, chain, uncompared, one, written, named, kept, dropped, there, there', ?_, ?_, ?_⟩
  · rw [keeps]
    decide
  · rw [drops]
    decide
  · refine (neither _ (by decide)).mp ⟨?_, ?_⟩
    · rw [keeps]
      decide
    · rw [drops]
      decide

end PathQuery
