import PathQuery.Proofs.Json.Preorder
import PathQuery.Proofs.Query.Reach
import PathQuery.Proofs.Query.Subtree

/-!
# Every node once, in document order

A walk with one path for all open containers (`Walk.Loop`), which grows when a
container is opened and shrinks when one is left, comes to an end and gives the
nodes of `descendants` (`Walk.Loop.yields_iff`).  Those are the nodes that
resolving finds below a value, each once with its container and its key, every
node before what is below it and all that is below it before its next sibling
(`descendants_enumerate`).
-/

set_option autoImplicit false

namespace PathQuery.Json

def keys (value : Json) : List Key := value.children.map Prod.fst

/-- In `value`, the way along `first` is above the other, or leaves it for an earlier sibling. -/
def Precedes (value : Json) (first second : Path) : Prop :=
  ProperPrefix first second ∨
    ∃ front key other rest rest' container, first = front ++ key :: rest ∧
      second = front ++ other :: rest' ∧ value.get? front = some container ∧
      other ∈ container.keys ∧ container.keys.idxOf key < container.keys.idxOf other

theorem Precedes.cons {value child : Json} {key : Key} {first second : Path}
    (found : value.child? key = some child) (precedes : Precedes child first second) :
    Precedes value (key :: first) (key :: second) := by
  rcases precedes with above | ⟨front, here, there, rest, rest', container, rfl, rfl, reached, less⟩
  · exact .inl (properPrefix_cons_iff.mpr ⟨rfl, above⟩)
  · refine .inr ⟨key :: front, here, there, rest, rest', container, rfl, rfl, ?_, less⟩
    rw [get?_cons, found, Option.bind_some, reached]

theorem pairwise_idxOf_keys {value : Json} (wf : value.WellFormed) :
    value.children.Pairwise fun first second => second.1 ∈ value.keys ∧
      value.keys.idxOf first.1 < value.keys.idxOf second.1 := by
  have distinct : value.keys.Nodup := wf.nodup_keys
  have ordered : value.keys.Pairwise fun first second => second ∈ value.keys ∧
      value.keys.idxOf first < value.keys.idxOf second := by
    rw [List.pairwise_iff_getElem]
    intro i j _ bound less
    rw [distinct.idxOf_getElem, distinct.idxOf_getElem]
    exact ⟨List.getElem_mem bound, less⟩
  rwa [keys, List.pairwise_map] at ordered

theorem map_path_subtree (value child : Json) (key : Key) :
    (subtree [] value (key, child)).map Descendant.path =
      [key] :: ((child.preorder []).map Descendant.path).map (key :: ·) := by
  rw [subtree, List.map_cons, map_path_preorder, List.map_map]
  rfl

theorem pairwise_precedes_preorder {value : Json} (wf : value.WellFormed) :
    ((value.preorder []).map Descendant.path).Pairwise (Precedes value) := by
  induction value using childInduction with
  | step value ih =>
    rw [preorder_eq_flatMap, List.map_flatMap, List.pairwise_flatMap]
    constructor
    · rintro ⟨key, child⟩ member
      have found := (child?_eq_some_iff wf).mpr member
      rw [map_path_subtree, List.pairwise_cons, List.pairwise_map]
      constructor
      · intro path below
        obtain ⟨rest, listed, rfl⟩ := List.mem_map.mp below
        obtain ⟨node, inside, rfl⟩ := List.mem_map.mp listed
        have above : ProperPrefix [key] ([key] ++ node.path) :=
          properPrefix_append (path_ne_nil_of_mem_preorder inside)
        exact .inl above
      · exact (ih key child member (wf.child member)).imp fun precedes => precedes.cons found
    · refine (pairwise_idxOf_keys wf).imp_of_mem ?_
      rintro ⟨key, child⟩ ⟨other, sibling⟩ member sideways earlier first here second there
      obtain ⟨rest, rfl⟩ := mem_subtree_paths wf member here
      obtain ⟨rest', rfl⟩ := mem_subtree_paths wf sideways there
      exact .inr ⟨[], key, other, rest, rest', value, rfl, rfl, get?_nil value, earlier⟩

theorem resolve_of_mem_preorder {value : Json} (wf : value.WellFormed) :
    ∀ {node : Descendant}, node ∈ value.preorder [] →
      value.resolve node.path = ⟨some node.container, some node.key, node.value⟩ := by
  induction value using childInduction with
  | step value ih =>
    intro node listed
    rw [preorder_eq_flatMap, List.mem_flatMap] at listed
    obtain ⟨⟨key, child⟩, member, listed⟩ := listed
    have found := (child?_eq_some_iff wf).mpr member
    have here : value.get? ([] ++ [key]) = some child := by simp [found]
    rcases List.mem_cons.mp listed with rfl | below
    · obtain ⟨container, above, -, resolved⟩ := resolve_of_get? here
      rw [get?_nil, Option.some.injEq] at above
      subst above
      exact resolved
    · rw [← List.append_nil ([] ++ [key]), preorder_append, List.mem_map] at below
      obtain ⟨node, below, rfl⟩ := below
      have resolved := ih key child member (wf.child member) below
      rw [← resolve_below here (path_ne_nil_of_mem_preorder below)] at resolved
      exact resolved

theorem filter_subtree (value : Json) (entry : Key × Json) :
    (subtree [] value entry).filter (fun node => node.path.length = 1) =
      [childNode [] value entry] := by
  have deeper : ∀ node ∈ entry.2.preorder [entry.1], ¬ node.path.length = 1 := by
    intro node listed
    rw [← List.append_nil [entry.1], preorder_append, List.mem_map] at listed
    obtain ⟨below, listed, rfl⟩ := listed
    have some' := List.length_pos_iff.mpr (path_ne_nil_of_mem_preorder listed)
    simp only [Descendant.under, List.length_append, List.length_singleton]
    omega
  rw [subtree, List.filter_cons, if_pos (by simp [childNode]), List.cons.injEq]
  exact ⟨rfl, List.filter_eq_nil_iff.mpr fun node listed => by simpa using deeper node listed⟩

theorem descendants_false_eq_filter (value : Json) :
    value.descendants false =
      (value.descendants true).filter fun node => node.path.length = 1 := by
  rw [descendants_false, descendants_true, preorder_eq_flatMap, List.filter_flatMap]
  simp only [filter_subtree]
  exact List.map_eq_flatMap

/-! ## One path for all open containers -/

namespace Walk

/-- The containers that are open, innermost first, each with the keys not yet visited, and the
path of the innermost one. -/
structure Loop where
  stack : List (Json × List Key)
  path : Path

namespace Loop

def start (value : Json) : Loop :=
  if value.isContainer then ⟨[(value, value.keys)], []⟩ else ⟨[], []⟩

/-- One turn: the node that it yields, if it does, and the state behind it.  A container without
further keys is left.  There is no turn where no container is open. -/
def turn (recursive : Bool) : Loop → Option (Option Descendant × Loop)
  | ⟨[], _⟩ => none
  | ⟨(_, []) :: stack, path⟩ => some (none, ⟨stack, path.dropLast⟩)
  | ⟨(container, key :: keys) :: stack, path⟩ =>
    let value := (container.child? key).getD .null
    let rest := (container, keys) :: stack
    some (some ⟨container, key, path ++ [key], value⟩,
      if recursive && value.isContainer then ⟨(value, value.keys) :: rest, path ++ [key]⟩
      else ⟨rest, path⟩)

/-- Turn after turn up to the end, these nodes are yielded. -/
inductive Yields (recursive : Bool) : Loop → List Descendant → Prop
  | ended {state : Loop} : state.turn recursive = none → Yields recursive state []
  | turned {state next : Loop} {node : Option Descendant} {nodes : List Descendant} :
      state.turn recursive = some (node, next) → Yields recursive next nodes →
      Yields recursive state (node.toList ++ nodes)

theorem Yields.unique {recursive : Bool} {state : Loop} {nodes others : List Descendant}
    (yields : Yields recursive state nodes) (yields' : Yields recursive state others) :
    nodes = others := by
  induction yields generalizing others with
  | ended ends =>
    cases yields' with
    | ended => rfl
    | turned turn => rw [ends] at turn; cases turn
  | turned turn _ ih =>
    cases yields' with
    | ended ends => rw [ends] at turn; cases turn
    | turned turn' yields' =>
      rw [turn] at turn'
      cases turn'
      rw [ih yields']

theorem Yields.left {recursive : Bool} {container : Json} {stack : List (Json × List Key)}
    {path : Path} {nodes : List Descendant}
    (yields : Yields recursive ⟨stack, path.dropLast⟩ nodes) :
    Yields recursive ⟨(container, []) :: stack, path⟩ nodes := by
  have leaves : turn recursive ⟨(container, []) :: stack, path⟩ =
      some (none, ⟨stack, path.dropLast⟩) := rfl
  exact .turned leaves yields

theorem yields_children {value : Json} {stack : List (Json × List Key)} {path : Path}
    {nodes : List Descendant} (yields : Yields false ⟨stack, path.dropLast⟩ nodes)
    {entries : List (Key × Json)} (found : ∀ entry ∈ entries, value.child? entry.1 = some entry.2) :
    Yields false ⟨(value, entries.map Prod.fst) :: stack, path⟩
      (entries.map (childNode path value) ++ nodes) := by
  induction entries with
  | nil => exact yields.left
  | cons entry entries ih =>
    have first : (value.child? entry.1).getD .null = entry.2 := by
      rw [found entry (List.mem_cons_self ..), Option.getD_some]
    have goes : turn false ⟨(value, entry.1 :: entries.map Prod.fst) :: stack, path⟩ =
        some (some (childNode path value entry),
          ⟨(value, entries.map Prod.fst) :: stack, path⟩) := by
      rw [turn, first]
      rfl
    have later := ih fun entry listed => found entry (List.mem_cons_of_mem _ listed)
    exact .turned goes later

/-- From the moment a container is opened, all below it is yielded before the loop goes on with
the containers around it. -/
theorem yields_preorder {value : Json} (wf : value.WellFormed) :
    ∀ {stack : List (Json × List Key)} {path : Path} {nodes : List Descendant},
      Yields true ⟨stack, path.dropLast⟩ nodes →
      Yields true ⟨(value, value.keys) :: stack, path⟩ (value.preorder path ++ nodes) := by
  induction value using childInduction with
  | step value ih =>
    intro stack path nodes yields
    have visits : ∀ entries : List (Key × Json), (∀ entry ∈ entries, entry ∈ value.children) →
        Yields true ⟨(value, entries.map Prod.fst) :: stack, path⟩
          (entries.flatMap (subtree path value) ++ nodes) := by
      intro entries
      induction entries with
      | nil => exact fun _ => yields.left
      | cons entry entries later =>
        intro members
        obtain ⟨key, child⟩ := entry
        have member := members _ (List.mem_cons_self ..)
        have first : (value.child? key).getD .null = child := by
          rw [(child?_eq_some_iff wf).mpr member, Option.getD_some]
        have behind := later fun entry listed => members entry (List.mem_cons_of_mem _ listed)
        rw [List.flatMap_cons, subtree, List.append_assoc, List.cons_append]
        -- a container is opened with the path of the child; a scalar has nothing below it
        by_cases opens : child.isContainer = true
        · have goes : turn true ⟨(value, key :: entries.map Prod.fst) :: stack, path⟩ =
              some (some (childNode path value (key, child)),
                ⟨(child, child.keys) :: (value, entries.map Prod.fst) :: stack,
                  path ++ [key]⟩) := by
            rw [turn, first, opens]
            rfl
          refine .turned goes (ih key child member (wf.child member) ?_)
          rwa [List.dropLast_concat]
        · have scalar : child.preorder (path ++ [key]) = [] := by
            cases child with
            | arr => exact absurd rfl opens
            | obj => exact absurd rfl opens
            | _ => simp [preorder]
          have goes : turn true ⟨(value, key :: entries.map Prod.fst) :: stack, path⟩ =
              some (some (childNode path value (key, child)),
                ⟨(value, entries.map Prod.fst) :: stack, path⟩) := by
            rw [turn, first, Bool.eq_false_of_not_eq_true opens]
            rfl
          rw [scalar, List.nil_append]
          exact .turned goes behind
    rw [preorder_eq_flatMap]
    exact visits value.children fun _ member => member

theorem yields_iff {value : Json} (wf : value.WellFormed) (recursive : Bool)
    (nodes : List Descendant) :
    Yields recursive (start value) nodes ↔ nodes = value.descendants recursive := by
  have ends : ∀ path : Path, Yields recursive ⟨[], path⟩ [] := fun path => .ended (by rw [turn])
  have whole : Yields recursive (start value) (value.descendants recursive) := by
    rw [start]
    by_cases opens : value.isContainer = true
    · rw [if_pos opens]
      cases recursive with
      | true =>
        rw [descendants_true, ← List.append_nil (value.preorder [])]
        exact yields_preorder wf (ends _)
      | false =>
        rw [descendants_false, ← List.append_nil (value.children.map _)]
        exact yields_children (ends _) fun entry listed => (child?_eq_some_iff wf).mpr listed
    · have none' : value.children = [] := by
        cases value with
        | arr => exact absurd rfl opens
        | obj => exact absurd rfl opens
        | _ => rfl
      have nothing : value.descendants recursive = [] := by
        cases recursive with
        | true => rw [descendants_true, preorder_eq_flatMap, none', List.flatMap_nil]
        | false => rw [descendants_false, none', List.map_nil]
      rw [if_neg opens, nothing]
      exact ends []
  constructor
  · exact fun yields => yields.unique whole
  · rintro rfl
    exact whole

end Loop

end Walk

/-- The walk ends, however many nodes are asked for.  It names each node that a path leads to
once, in document order, and where it was found; without going down it names the children. -/
theorem descendants_enumerate (value : Json) (wf : value.WellFormed) :
    (∀ recursive nodes, Walk.Loop.Yields recursive (Walk.Loop.start value) nodes ↔
        nodes = value.descendants recursive) ∧
      (∀ recursive count, value.firstDescendants recursive count =
        (value.descendants recursive).take count) ∧
      (∀ path, path ∈ (value.descendants true).map Descendant.path ↔
        path ≠ [] ∧ (value.resolve path).owned = true) ∧
      ((value.descendants true).map Descendant.path).Nodup ∧
      ((value.descendants true).map Descendant.path).Pairwise (Precedes value) ∧
      (∀ node ∈ value.descendants true,
        value.resolve node.path = ⟨some node.container, some node.key, node.value⟩) ∧
      value.descendants false =
        (value.descendants true).filter fun node => node.path.length = 1 := by
  refine ⟨Walk.Loop.yields_iff wf, firstDescendants_eq_take value, fun path => ?_, ?_, ?_,
    fun node listed => ?_, descendants_false_eq_filter value⟩
  · rw [descendants_true, mem_preorder_paths_iff wf, owned_resolve_iff]
    constructor
    · rintro ⟨rest, some', rfl, there⟩
      exact ⟨some', some', there⟩
    · intro both
      exact ⟨path, both.1, rfl, both.2.2⟩
  · rw [descendants_true]
    exact nodup_preorder_paths wf []
  · rw [descendants_true]
    exact pairwise_precedes_preorder wf
  · rw [descendants_true] at listed
    exact resolve_of_mem_preorder wf listed

theorem descendants_enumerate_empty_containers :
    let inner : Json := .obj [("b", .null)]
    let value : Json := .obj [("a", .arr [.arr [], inner]), ("c", .obj [])]
    let last : Path := [.name "a", .index 1, .name "b"]
    value.WellFormed ∧ Walk.Loop.Yields true (Walk.Loop.start value) (value.descendants true) ∧
      (value.descendants true).map Descendant.path =
        [[.name "a"], [.name "a", .index 0], [.name "a", .index 1], last, [.name "c"]] ∧
      last ∈ (value.descendants true).map Descendant.path ∧
      value.resolve last = ⟨some inner, some (.name "b"), .null⟩ ∧
      (value.descendants false).map Descendant.path = [[.name "a"], [.name "c"]] := by
  intro inner value last
  have wf : value.WellFormed := by
    simp [value, inner, WellFormed, ElementsWellFormed, MembersWellFormed]
  obtain ⟨loop, -, listed, -, -, resolved, children⟩ := descendants_enumerate value wf
  have paths : (value.descendants true).map Descendant.path =
      [[.name "a"], [.name "a", .index 0], [.name "a", .index 1], last, [.name "c"]] := rfl
  have node : (⟨inner, .name "b", last, .null⟩ : Descendant) ∈ value.descendants true :=
    List.mem_of_getElem? (rfl : (value.descendants true)[3]? = some ⟨inner, .name "b", last, .null⟩)
  refine ⟨wf, (loop true _).mpr rfl, paths, (listed last).mpr ?_, resolved _ node, ?_⟩
  · exact ⟨List.cons_ne_nil _ _, rfl⟩
  · rw [children]
    rfl

end PathQuery.Json
