import PathQuery.Json.Walk
import PathQuery.Proofs.Json.Tree

/-!
# Pre-order and the walk

`preorder` lists, for every child in turn, the child and all below it
(`preorder_eq_flatMap`).  In a well-formed document it names every node below
the start once (`exists_mem_preorder`, `nodup_preorder_paths`).  The walk with a
stack of open containers gives the same list (`descendants_true`), and the
children alone when it does not go down (`descendants_false`).
-/

set_option autoImplicit false

namespace PathQuery

def Descendant.under (front : Path) (node : Descendant) : Descendant :=
  { node with path := front ++ node.path }

namespace Json

def childNode (path : Path) (container : Json) (entry : Key × Json) : Descendant :=
  ⟨container, entry.1, path ++ [entry.1], entry.2⟩

def subtree (path : Path) (container : Json) (entry : Key × Json) : List Descendant :=
  childNode path container entry :: entry.2.preorder (path ++ [entry.1])

theorem elementsPreorder_eq_flatMap (path : Path) (container : Json) (elements : List Json) :
    ∀ position : Nat, elementsPreorder path container position elements =
      (elements.mapIdx fun i value => (Key.index (position + i : Nat), value)).flatMap
        (subtree path container) := by
  induction elements with
  | nil => intro position; simp [elementsPreorder]
  | cons value rest ih =>
    intro position
    have shifted : (rest.mapIdx fun i value => (Key.index (position + (i + 1) : Nat), value)) =
        rest.mapIdx fun i value => (Key.index (position + 1 + i : Nat), value) := by
      congr 1
      funext i value
      rw [Nat.add_right_comm, Nat.add_assoc]
    rw [elementsPreorder, ih, List.mapIdx_cons, List.flatMap_cons, shifted]
    rfl

theorem membersPreorder_eq_flatMap (path : Path) (container : Json)
    (members : List (String × Json)) :
    membersPreorder path container members =
      (members.map fun member => (Key.name member.1, member.2)).flatMap
        (subtree path container) := by
  induction members with
  | nil => simp [membersPreorder]
  | cons member rest ih =>
    rw [membersPreorder, ih, List.map_cons, List.flatMap_cons]
    rfl

theorem preorder_eq_flatMap (path : Path) (value : Json) :
    value.preorder path = value.children.flatMap (subtree path value) := by
  cases value with
  | arr elements =>
    rw [preorder, elementsPreorder_eq_flatMap]
    simp [children]
  | obj members => rw [preorder, membersPreorder_eq_flatMap, children]
  | _ => simp [preorder, children]

theorem preorder_append (front : Path) (value : Json) :
    ∀ back : Path, value.preorder (front ++ back) =
      (value.preorder back).map (Descendant.under front) := by
  induction value using childInduction with
  | step value ih =>
    intro back
    rw [preorder_eq_flatMap, preorder_eq_flatMap, List.map_flatMap]
    apply List.flatMap_congr
    rintro ⟨key, child⟩ member
    rw [subtree, subtree, List.map_cons, childNode, childNode, List.append_assoc,
      ih key child member]
    rfl

theorem map_path_preorder (path : Path) (value : Json) :
    (value.preorder path).map Descendant.path =
      (value.preorder []).map fun node => path ++ node.path := by
  have moved := preorder_append path value []
  rw [List.append_nil] at moved
  rw [moved, List.map_map]
  rfl

theorem get?_of_mem_preorder {value : Json} (wf : value.WellFormed) :
    ∀ {path : Path} {node : Descendant}, node ∈ value.preorder path →
      ∃ rest : Path, rest ≠ [] ∧ node.path = path ++ rest ∧ value.get? rest = some node.value := by
  induction value using childInduction with
  | step value ih =>
    intro path node listed
    rw [preorder_eq_flatMap, List.mem_flatMap] at listed
    obtain ⟨⟨key, child⟩, member, listed⟩ := listed
    have found : value.child? key = some child := (child?_eq_some_iff wf).mpr member
    rcases List.mem_cons.mp listed with rfl | below
    · exact ⟨[key], by simp, rfl, by simp [found, childNode]⟩
    · obtain ⟨rest, -, place, reached⟩ := ih key child member (wf.child member) below
      exact ⟨key :: rest, by simp, by simp [place], by simpa [found] using reached⟩

theorem exists_mem_preorder {value target : Json} (wf : value.WellFormed) (path : Path)
    {rest : Path} (below : rest ≠ []) (reached : value.get? rest = some target) :
    ∃ node ∈ value.preorder path, node.path = path ++ rest ∧ node.value = target := by
  induction rest generalizing value path with
  | nil => exact absurd rfl below
  | cons key rest ih =>
    rw [get?_cons, Option.bind_eq_some_iff] at reached
    obtain ⟨child, found, reached⟩ := reached
    have member := (child?_eq_some_iff wf).mp found
    have listed : ∀ node ∈ subtree path value (key, child), node ∈ value.preorder path := by
      intro node inside
      rw [preorder_eq_flatMap]
      exact List.mem_flatMap.mpr ⟨(key, child), member, inside⟩
    by_cases last : rest = []
    · subst last
      have same : child = target := by simpa using reached
      exact ⟨childNode path value (key, child), listed _ (List.mem_cons_self ..), rfl, same⟩
    · obtain ⟨node, inside, place, holds⟩ := ih (wf.child member) (path ++ [key]) last reached
      exact ⟨node, listed node (List.mem_cons_of_mem _ inside), by simp [place], holds⟩

theorem mem_preorder_paths_iff {value : Json} (wf : value.WellFormed) {path target : Path} :
    target ∈ (value.preorder path).map Descendant.path ↔
      ∃ rest : Path, rest ≠ [] ∧ target = path ++ rest ∧ (value.get? rest).isSome = true := by
  constructor
  · intro listed
    obtain ⟨node, inside, rfl⟩ := List.mem_map.mp listed
    obtain ⟨rest, below, place, reached⟩ := get?_of_mem_preorder wf inside
    exact ⟨rest, below, place, by simp [reached]⟩
  · intro given
    obtain ⟨rest, below, rfl, some⟩ := given
    obtain ⟨found, reached⟩ := Option.isSome_iff_exists.mp some
    obtain ⟨node, inside, place, -⟩ := exists_mem_preorder wf path below reached
    exact List.mem_map.mpr ⟨node, inside, place⟩

theorem mem_subtree_paths {value child : Json} {key : Key} (wf : value.WellFormed)
    (member : (key, child) ∈ value.children) {path target : Path}
    (inside : target ∈ (subtree path value (key, child)).map Descendant.path) :
    path ++ [key] <+: target := by
  rw [subtree, List.map_cons] at inside
  rcases List.mem_cons.mp inside with rfl | below
  · exact List.prefix_rfl
  · obtain ⟨rest, -, rfl, -⟩ := (mem_preorder_paths_iff (wf.child member)).mp below
    exact List.prefix_append _ _

theorem nodup_preorder_paths {value : Json} (wf : value.WellFormed) :
    ∀ path : Path, ((value.preorder path).map Descendant.path).Nodup := by
  induction value using childInduction with
  | step value ih =>
    intro path
    rw [preorder_eq_flatMap, List.map_flatMap, List.nodup_flatMap]
    constructor
    · rintro ⟨key, child⟩ member
      rw [subtree, List.map_cons, List.nodup_cons]
      refine ⟨?_, ih key child member (wf.child member) (path ++ [key])⟩
      intro below
      obtain ⟨rest, some, place, -⟩ := (mem_preorder_paths_iff (wf.child member)).mp below
      exact some (List.self_eq_append_right.mp place)
    · -- Two children differ in their keys, and so do all paths through them.
      have distinct := wf.nodup_keys
      rw [List.Nodup, List.pairwise_map] at distinct
      refine distinct.imp_of_mem ?_
      rintro ⟨key, child⟩ ⟨other, sibling⟩ member sideways different target here there
      have first := mem_subtree_paths wf member here
      have second := mem_subtree_paths wf sideways there
      have same := (List.prefix_of_prefix_length_le first second (by simp)).eq_of_length (by simp)
      exact different (by simpa using same)

theorem pairwise_preorder_paths {value : Json} (wf : value.WellFormed) :
    ∀ path : Path, ((value.preorder path).map Descendant.path).Pairwise fun first second =>
      ¬ ProperPrefix second first := by
  induction value using childInduction with
  | step value ih =>
    intro path
    rw [preorder_eq_flatMap, List.map_flatMap, List.pairwise_flatMap]
    constructor
    · rintro ⟨key, child⟩ member
      rw [subtree, List.map_cons, List.pairwise_cons]
      refine ⟨?_, ih key child member (wf.child member) (path ++ [key])⟩
      intro target inside above
      obtain ⟨rest, -, rfl, -⟩ := (mem_preorder_paths_iff (wf.child member)).mp inside
      have shorter := above.length_lt
      simp only [childNode, List.length_append, List.length_singleton] at shorter
      omega
    · have distinct := wf.nodup_keys
      rw [List.Nodup, List.pairwise_map] at distinct
      refine distinct.imp_of_mem ?_
      rintro ⟨key, child⟩ ⟨other, sibling⟩ member sideways different first here second there above
      have upper := mem_subtree_paths wf member here
      have lower := (mem_subtree_paths wf sideways there).trans above.1
      have same := (List.prefix_of_prefix_length_le upper lower (by simp)).eq_of_length (by simp)
      exact different (by simpa using same)

/-- The nodes from `path` on, where `value` stands, with their values in pre-order. -/
def selfAndBelow (path : Path) (value : Json) : List (Path × Json) :=
  (path, value) :: (value.preorder path).map fun node => (node.path, node.value)

theorem map_fst_selfAndBelow (path : Path) (value : Json) :
    (selfAndBelow path value).map Prod.fst =
      path :: (value.preorder path).map Descendant.path := by
  simp [selfAndBelow, Function.comp_def]

theorem mem_selfAndBelow_iff {value target : Json} (wf : value.WellFormed) {path place : Path} :
    (place, target) ∈ selfAndBelow path value ↔
      ∃ rest : Path, place = path ++ rest ∧ value.get? rest = some target := by
  rw [selfAndBelow, List.mem_cons, List.mem_map, Prod.mk.injEq]
  constructor
  · intro either
    rcases either with ⟨rfl, rfl⟩ | ⟨node, inside, same⟩
    · exact ⟨[], by simp, get?_nil _⟩
    · obtain ⟨rfl, rfl⟩ := (Prod.mk.injEq ..).mp same
      obtain ⟨rest, -, place, reached⟩ := get?_of_mem_preorder wf inside
      exact ⟨rest, place, reached⟩
  · intro given
    obtain ⟨rest, rfl, reached⟩ := given
    by_cases last : rest = []
    · subst last
      rw [get?_nil, Option.some.injEq] at reached
      exact .inl ⟨List.append_nil path, reached.symm⟩
    · obtain ⟨node, inside, place, holds⟩ := exists_mem_preorder wf path last reached
      exact .inr ⟨node, inside, by rw [place, holds]⟩

theorem nodup_selfAndBelow {value : Json} (wf : value.WellFormed) (path : Path) :
    ((selfAndBelow path value).map Prod.fst).Nodup := by
  rw [map_fst_selfAndBelow, List.nodup_cons]
  refine ⟨?_, nodup_preorder_paths wf path⟩
  intro inside
  obtain ⟨rest, below, same, -⟩ := (mem_preorder_paths_iff wf).mp inside
  exact below (List.self_eq_append_right.mp same)

theorem pairwise_selfAndBelow {value : Json} (wf : value.WellFormed) (path : Path) :
    ((selfAndBelow path value).map Prod.fst).Pairwise fun first second =>
      ¬ ProperPrefix second first := by
  rw [map_fst_selfAndBelow, List.pairwise_cons]
  refine ⟨?_, pairwise_preorder_paths wf path⟩
  intro target inside above
  obtain ⟨rest, -, rfl, -⟩ := (mem_preorder_paths_iff wf).mp inside
  have shorter := above.length_lt
  rw [List.length_append] at shorter
  omega

/-! ## The walk -/

namespace Walk

/-- What an open container still contributes to a walk. -/
def Frame.nodes (recursive : Bool) (frame : Frame) : List Descendant :=
  frame.pending.flatMap fun entry =>
    if recursive then subtree frame.path frame.container entry
    else [childNode frame.path frame.container entry]

def nodes (recursive : Bool) (stack : List Frame) : List Descendant :=
  stack.flatMap (Frame.nodes recursive)

theorem nodes_of_next? (recursive : Bool) (stack : List Frame) :
    (next? recursive stack = none → nodes recursive stack = []) ∧
      ∀ node rest, next? recursive stack = some (node, rest) →
        nodes recursive stack = node :: nodes recursive rest := by
  induction stack with
  | nil => simp [next?, nodes]
  | cons frame stack ih =>
    obtain ⟨path, container, pending⟩ := frame
    cases pending with
    | nil => simpa [next?, nodes, Frame.nodes] using ih
    | cons entry pending =>
      obtain ⟨key, value⟩ := entry
      refine ⟨by simp [next?], ?_⟩
      intro node rest found
      simp only [next?, Option.some.injEq, Prod.mk.injEq] at found
      obtain ⟨rfl, rfl⟩ := found
      cases recursive with
      | false => simp [nodes, Frame.nodes, childNode]
      | true =>
        simp only [nodes, Frame.nodes, List.flatMap_cons, if_true]
        rw [subtree, preorder_eq_flatMap]
        simp [childNode]

theorem take_eq_take_nodes (recursive : Bool) (count : Nat) (stack : List Frame) :
    take recursive count stack = (nodes recursive stack).take count := by
  induction count generalizing stack with
  | zero => simp [take]
  | succ count ih =>
    obtain ⟨ended, moved⟩ := nodes_of_next? recursive stack
    rw [take]
    cases found : next? recursive stack with
    | none => simp [ended found]
    | some next =>
      obtain ⟨node, rest⟩ := next
      rw [moved node rest found, List.take_succ_cons, ← ih]

end Walk

mutual

theorem length_preorder (path : Path) :
    ∀ value : Json, (value.preorder path).length = value.descendantCount
  | .arr elements => by
    rw [preorder, descendantCount]
    exact length_elementsPreorder path _ 0 elements
  | .obj members => by
    rw [preorder, descendantCount]
    exact length_membersPreorder path _ members
  | .null | .bool _ | .num _ | .str _ => by simp [preorder, descendantCount]

theorem length_elementsPreorder (path : Path) (container : Json) (position : Nat) :
    ∀ elements : List Json,
      (elementsPreorder path container position elements).length = elementsCount elements
  | [] => by simp [elementsPreorder, elementsCount]
  | value :: rest => by
    have here := length_preorder (path ++ [.index position]) value
    have behind := length_elementsPreorder path container (position + 1) rest
    simp only [elementsPreorder, elementsCount, List.length_append, List.length_cons, here, behind]
    omega

theorem length_membersPreorder (path : Path) (container : Json) :
    ∀ members : List (String × Json),
      (membersPreorder path container members).length = membersCount members
  | [] => by simp [membersPreorder, membersCount]
  | (key, value) :: rest => by
    have here := length_preorder (path ++ [.name key]) value
    have behind := length_membersPreorder path container rest
    simp only [membersPreorder, membersCount, List.length_append, List.length_cons, here, behind]
    omega

end

theorem length_children_le (value : Json) : value.children.length ≤ value.descendantCount := by
  rw [← length_preorder [], preorder_eq_flatMap, List.length_flatMap]
  induction value.children with
  | nil => simp
  | cons entry rest ih =>
    rw [List.map_cons, List.sum_cons, List.length_cons]
    have counted : 1 ≤ (subtree [] value entry).length := by simp [subtree]
    omega

theorem Walk.nodes_start_true (value : Json) : nodes true (start value) = value.preorder [] := by
  simp [nodes, start, Frame.nodes, preorder_eq_flatMap]

theorem Walk.nodes_start_false (value : Json) :
    nodes false (start value) = value.children.map (childNode [] value) := by
  simp [nodes, start, Frame.nodes, List.map_eq_flatMap]

/-- The stack of open containers gives the nodes below a value in pre-order. -/
theorem descendants_true (value : Json) : value.descendants true = value.preorder [] := by
  rw [descendants, firstDescendants, Walk.take_eq_take_nodes, Walk.nodes_start_true,
    ← length_preorder [], List.take_length]

theorem descendants_false (value : Json) :
    value.descendants false = value.children.map (childNode [] value) := by
  rw [descendants, firstDescendants, Walk.take_eq_take_nodes, Walk.nodes_start_false,
    List.take_of_length_le]
  simpa using length_children_le value

theorem firstDescendants_eq_take (value : Json) (recursive : Bool) (count : Nat) :
    value.firstDescendants recursive count = (value.descendants recursive).take count := by
  rw [firstDescendants, Walk.take_eq_take_nodes]
  cases recursive with
  | true => rw [Walk.nodes_start_true, descendants_true]
  | false => rw [Walk.nodes_start_false, descendants_false]

end Json

end PathQuery
