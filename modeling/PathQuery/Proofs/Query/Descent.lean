import Mathlib.Data.List.Perm.Basic
import Mathlib.Data.List.Sublists
import PathQuery.Proofs.Json.Preorder
import PathQuery.Query.Evaluate

/-!
# Going down from a node

Names and indices are looked up in a node and then in every node below it, while
a star takes the nodes below in their order.  Both come to the same set: the
paths below the node whose last key the selector picks (`Selector.picks`) and
whose value satisfies the comparison (`satisfies`), each once
(`selectStep_descendants`).
-/

set_option autoImplicit false

namespace PathQuery

open Evaluate

/-- Whether the node at `path` has the value that a comparison asks for, if there is one. -/
def satisfies (document : Json) (comparison : Option Comparison) (path : Path) : Bool :=
  match comparison with
  | none => true
  | some comparison => (document.get? path).any comparison.holds

theorem passes_resolve_iff (document : Json) (comparison : Option Comparison) (path : Path) :
    passes comparison false (document.resolve path) = true ↔
      path ≠ [] ∧ (document.get? path).isSome = true ∧
        satisfies document comparison path = true := by
  have owned := Json.owned_resolve_iff document path
  cases comparison with
  | none => simpa [passes, satisfies] using owned
  | some comparison =>
    rw [passes, satisfies, Bool.and_eq_true, owned, Json.value_resolve, and_assoc]
    cases document.get? path <;> simp

/-- Whether a selector picks the node at `path` by its last key.  An index that is
negative counts from the end of the array that the path goes through last. -/
def Selector.picks (document : Json) (path : Path) : Selector → Bool
  | .wildcard => true
  | .name text => path.getLast? = some (.name text)
  | .names texts => texts.any fun text => path.getLast? = some (.name text)
  | .index position =>
    match document.get? path.dropLast with
    | some (.arr elements) =>
      path.getLast? =
        some (.index (if 0 ≤ position then position else elements.length + position))
    | _ => false

def Selector.Distinct : Selector → Prop
  | .names texts => texts.Nodup
  | _ => True

def Selector.keysIn (container : Json) : Selector → List Key
  | .wildcard => container.children.map Prod.fst
  | .name text => [Key.name text].filter fun key => container.owns key
  | .names texts => (texts.map Key.name).filter fun key => container.owns key
  | .index position => ((position? position container).map Key.index).toList

theorem position?_eq_some_iff {index position : Int} {container : Json} :
    position? index container = some position ↔
      ∃ elements : List Json, container = .arr elements ∧
        position = (if 0 ≤ index then index else elements.length + index) ∧
        container.owns (.index position) = true := by
  cases container with
  | arr elements =>
    simp only [position?, Json.arr.injEq, exists_eq_left']
    generalize (if 0 ≤ index then index else elements.length + index) = place
    rw [Option.ite_none_right_eq_some, Option.some.injEq]
    constructor
    · intro given
      obtain ⟨⟨lower, upper⟩, rfl⟩ := given
      refine ⟨rfl, ?_⟩
      obtain ⟨place, rfl⟩ := Int.eq_ofNat_of_zero_le lower
      have bound : place < elements.length := Int.ofNat_lt.mp upper
      simpa [Json.owns, Json.child?, ← Int.ofNat_eq_natCast] using bound
    · intro given
      obtain ⟨rfl, owned⟩ := given
      refine ⟨?_, rfl⟩
      cases position with
      | ofNat position =>
        have bound : position < elements.length := by simpa [Json.owns, Json.child?] using owned
        simp only [Int.ofNat_eq_natCast]
        omega
      | negSucc position => simp [Json.owns, Json.child?] at owned
  | _ => simp [position?]

theorem Selector.mem_keysIn_iff {document container : Json} {path : Path}
    (wf : container.WellFormed) (found : document.get? path = some container) (selector : Selector)
    (key : Key) :
    key ∈ selector.keysIn container ↔
      container.owns key = true ∧ selector.picks document (path ++ [key]) = true := by
  cases selector with
  | wildcard => simp [keysIn, picks, Json.owns_iff_mem_keys wf]
  | name text =>
    simp only [keysIn, picks, List.mem_filter, List.mem_singleton, List.getLast?_concat,
      Option.some.injEq, decide_eq_true_eq]
    exact and_comm
  | names texts =>
    simp only [keysIn, picks, List.mem_filter, List.mem_map, List.getLast?_concat,
      Option.some.injEq, List.any_eq_true, decide_eq_true_eq]
    constructor
    · intro given
      obtain ⟨⟨text, listed, rfl⟩, owned⟩ := given
      exact ⟨owned, text, listed, rfl⟩
    · intro given
      obtain ⟨owned, text, listed, rfl⟩ := given
      exact ⟨⟨text, listed, rfl⟩, owned⟩
  | index position =>
    simp only [keysIn, picks, Option.mem_toList, Option.map_eq_some_iff, position?_eq_some_iff,
      List.dropLast_concat, List.getLast?_concat, found]
    constructor
    · intro given
      obtain ⟨place, ⟨elements, rfl, same, owned⟩, rfl⟩ := given
      exact ⟨owned, by simp [same]⟩
    · intro given
      obtain ⟨owned, picked⟩ := given
      cases container with
      | arr elements =>
        simp only [Option.some.injEq, decide_eq_true_eq] at picked
        subst picked
        exact ⟨_, ⟨elements, rfl, rfl, owned⟩, rfl⟩
      | _ => simp at picked

theorem Selector.nodup_keysIn {container : Json} (wf : container.WellFormed) {selector : Selector}
    (distinct : selector.Distinct) : (selector.keysIn container).Nodup := by
  cases selector with
  | wildcard => exact wf.nodup_keys
  | name text => exact (List.nodup_singleton _).filter _
  | names texts => exact (List.Nodup.map (fun _ _ same => Key.name.inj same) distinct).filter _
  | index position =>
    rw [keysIn]
    cases position? position container <;> simp

/-- The nodes whose keys a step looks at: one node, or all from it on. -/
def sites (recursive : Bool) (path : Path) (value : Json) : List (Path × Json) :=
  if recursive then Json.selfAndBelow path value else [(path, value)]

def pickedAt (selector : Selector) (site : Path × Json) : List Path :=
  (selector.keysIn site.2).map fun key => site.1 ++ [key]

/-- Whether `path` leads on from `start`, and to one of its children if not recursively. -/
def StepsTo (recursive : Bool) (start path : Path) : Prop :=
  ProperPrefix start path ∧ (recursive = false → path.dropLast = start)

theorem stepsTo_concat_iff {recursive : Bool} {start front : Path} {key : Key} :
    StepsTo recursive start (front ++ [key]) ↔
      start <+: front ∧ (recursive = false → front = start) := by
  rw [StepsTo, List.dropLast_concat]
  refine and_congr_left fun _ => ⟨ProperPrefix.of_concat, ?_⟩
  intro given
  obtain ⟨rest, rfl⟩ := given
  rw [List.append_assoc]
  exact properPrefix_append (by simp)

theorem mem_sites_iff {document value target : Json} {recursive : Bool} {path place : Path}
    (wf : document.WellFormed) (found : document.get? path = some value) :
    (place, target) ∈ sites recursive path value ↔
      path <+: place ∧ (recursive = false → place = path) ∧ document.get? place = some target := by
  cases recursive with
  | false =>
    simp only [sites, Bool.false_eq_true, if_false, List.mem_singleton, Prod.mk.injEq, forall_const]
    constructor
    · intro given
      obtain ⟨rfl, rfl⟩ := given
      exact ⟨List.prefix_rfl, rfl, found⟩
    · intro given
      obtain ⟨-, rfl, reached⟩ := given
      exact ⟨rfl, Option.some.inj (reached.symm.trans found)⟩
  | true =>
    rw [sites, if_pos rfl, Json.mem_selfAndBelow_iff (wf.get? found)]
    constructor
    · intro given
      obtain ⟨rest, rfl, reached⟩ := given
      refine ⟨List.prefix_append .., by simp, ?_⟩
      rw [Json.get?_append, found, Option.bind_some, reached]
    · intro given
      obtain ⟨⟨rest, rfl⟩, -, reached⟩ := given
      refine ⟨rest, rfl, ?_⟩
      rwa [Json.get?_append, found, Option.bind_some] at reached

theorem filter_map_filter {keys : List Key} {owned : Key → Bool} {place : Key → Path}
    {keep : Path → Bool} (implied : ∀ key, keep (place key) = true → owned key = true) :
    ((keys.filter owned).map place).filter keep = (keys.map place).filter keep := by
  rw [List.filter_map, List.filter_map, List.filter_filter]
  congr 1
  apply List.filter_congr
  intro key _
  rw [Function.comp_apply, Bool.and_eq_left_iff_imp]
  exact implied key

theorem namedPaths_eq (names : List String) (recursive : Bool) (path : Path) (value : Json) :
    namedPaths names recursive path value =
      (names.map fun name => path ++ [.name name]) ++
        (if recursive then (value.preorder path).map fun node => (node.path, node.value)
          else []).flatMap (pickedAt (.names names)) := by
  cases recursive with
  | false => simp [namedPaths]
  | true =>
    have moved := Json.preorder_append path value []
    rw [List.append_nil] at moved
    simp only [namedPaths, if_true, Json.descendants_true, moved, List.map_map, List.flatMap_map]
    congr 1
    apply List.flatMap_congr
    intro node _
    simp [pickedAt, Selector.keysIn, Descendant.under, List.filter_map, Function.comp_def]

theorem indexedPaths_eq (index : Int) (recursive : Bool) (path : Path) (value : Json) :
    indexedPaths index recursive path value =
      (sites recursive path value).flatMap (pickedAt (.index index)) := by
  have place : ∀ (front : Path) (container : Json),
      ((position? index container).map fun position => front ++ [.index position]).toList =
        pickedAt (.index index) (front, container) := by
    intro front container
    rw [pickedAt, Selector.keysIn]
    cases position? index container <;> rfl
  cases recursive with
  | false => simp [indexedPaths, sites, place]
  | true =>
    have moved := Json.preorder_append path value []
    rw [List.append_nil] at moved
    simp only [indexedPaths, sites, Json.selfAndBelow, if_true, Json.descendants_true, moved, place,
      List.flatMap_cons, List.map_map, List.flatMap_map, List.filterMap_eq_flatMap_toList]
    rfl

theorem childPaths_eq (path : Path) (value : Json) :
    ((value.descendants false).map fun node => path ++ node.path) =
      (sites false path value).flatMap (pickedAt .wildcard) := by
  simp [Json.descendants_false, sites, pickedAt, Selector.keysIn, Json.childNode]

theorem filter_proposed {document value : Json} {path : Path} {selector : Selector}
    {recursive : Bool} (found : document.get? path = some value)
    (plain : selector ≠ .wildcard ∨ recursive = false) {keep : Path → Bool}
    (real : ∀ place, keep place = true → (document.get? place).isSome = true) :
    (proposed (some selector) recursive path value).filter keep =
      ((sites recursive path value).flatMap (pickedAt selector)).filter keep := by
  have named : ∀ names : List String,
      (namedPaths names recursive path value).filter keep =
        ((sites recursive path value).flatMap (pickedAt (.names names))).filter keep := by
    intro names
    have owned : ∀ key : Key, keep (path ++ [key]) = true → value.owns key = true := by
      intro key kept
      simpa [Json.get?_append, found, Json.owns] using real _ kept
    have here : (names.map fun name => path ++ [.name name]).filter keep =
        (pickedAt (.names names) (path, value)).filter keep := by
      rw [pickedAt, Selector.keysIn, filter_map_filter owned, List.map_map]
      rfl
    have split : sites recursive path value =
        (path, value) :: if recursive then (value.preorder path).map fun node => (node.path, node.value)
          else [] := by
      cases recursive <;> rfl
    rw [namedPaths_eq, split, List.flatMap_cons, List.filter_append, List.filter_append, here]
  cases selector with
  | wildcard =>
    have flat := plain.resolve_left fun differs => differs rfl
    rw [flat, proposed, childPaths_eq]
  | index position => rw [proposed, indexedPaths_eq]
  | name name => exact named [name]
  | names names => exact named names

theorem mem_pickedAt_iff {document container : Json} {place path : Path} (wf : document.WellFormed)
    (found : document.get? place = some container) (selector : Selector) :
    path ∈ pickedAt selector (place, container) ↔
      (∃ key : Key, path = place ++ [key]) ∧ (document.get? path).isSome = true ∧
        selector.picks document path = true := by
  have reached : ∀ key : Key,
      (document.get? (place ++ [key])).isSome = true ↔ container.owns key = true := by
    intro key
    simp [Json.get?_append, found, Json.owns]
  simp only [pickedAt, List.mem_map, Selector.mem_keysIn_iff (wf.get? found) found]
  constructor
  · intro given
    obtain ⟨key, ⟨owned, picked⟩, rfl⟩ := given
    exact ⟨⟨key, rfl⟩, (reached key).mpr owned, picked⟩
  · intro given
    obtain ⟨⟨key, rfl⟩, some, picked⟩ := given
    exact ⟨key, ⟨(reached key).mp some, picked⟩, rfl⟩

theorem pairwise_idxOf_le {paths : List Path} (distinct : paths.Nodup) :
    paths.Pairwise fun first second => paths.idxOf first ≤ paths.idxOf second := by
  rw [List.pairwise_iff_getElem]
  intro i j _ _ less
  rw [distinct.idxOf_getElem, distinct.idxOf_getElem]
  omega

/-! ## One step down from one node -/

theorem selectStep_keyed_singleton {document value : Json} {current start : Path}
    (found : document.get? start = some value) (present : value.isNull = false)
    (selector : Option Selector) (comparison : Option Comparison) (negated : Bool) :
    selectStep document current (.keyed .descendants selector comparison negated) [start] =
      (proposed selector true start value).filter fun path =>
        passes comparison negated (document.resolve path) := by
  simp [selectStep, move, expand, Json.value_resolve, found, present]

section Descendants

variable {document value : Json} {start : Path} (wf : document.WellFormed)
  (found : document.get? start = some value) (comparison : Option Comparison)

include wf found

theorem mem_descendants_iff {recursive : Bool} {path : Path} {target : Json} :
    (∃ node ∈ value.descendants recursive, start ++ node.path = path ∧ node.value = target) ↔
      StepsTo recursive start path ∧ document.get? path = some target := by
  have inner := wf.get? found
  cases recursive with
  | false =>
    simp only [Json.descendants_false, List.mem_map, Json.childNode, List.nil_append]
    constructor
    · intro given
      obtain ⟨node, ⟨⟨key, child⟩, member, rfl⟩, rfl, rfl⟩ := given
      refine ⟨stepsTo_concat_iff.mpr ⟨List.prefix_rfl, fun _ => rfl⟩, ?_⟩
      simpa [Json.get?_append, found] using (Json.child?_eq_some_iff inner).mpr member
    · intro given
      obtain ⟨⟨above, direct⟩, reached⟩ := given
      obtain ⟨front, key, rfl⟩ := above.exists_eq_concat
      have same : front = start := by simpa using direct rfl
      subst same
      have child : value.child? key = some target := by
        simpa [Json.get?_append, found] using reached
      exact ⟨_, ⟨(key, target), (Json.child?_eq_some_iff inner).mp child, rfl⟩, rfl, rfl⟩
  | true =>
    rw [Json.descendants_true]
    constructor
    · intro given
      obtain ⟨node, member, rfl, rfl⟩ := given
      obtain ⟨rest, below, place, reached⟩ := Json.get?_of_mem_preorder inner member
      rw [place, List.nil_append]
      refine ⟨⟨properPrefix_append below, by simp⟩, ?_⟩
      rw [Json.get?_append, found, Option.bind_some, reached]
    · intro given
      obtain ⟨⟨⟨⟨rest, rfl⟩, proper⟩, -⟩, reached⟩ := given
      rw [Json.get?_append, found, Option.bind_some] at reached
      have below : rest ≠ [] := by
        intro same
        subst same
        exact proper (List.append_nil start).symm
      obtain ⟨node, member, place, holds⟩ := Json.exists_mem_preorder inner [] below reached
      exact ⟨node, member, by rw [place, List.nil_append], holds⟩

theorem mem_flatMap_pickedAt_iff {recursive : Bool} (selector : Selector) (path : Path) :
    path ∈ (sites recursive start value).flatMap (pickedAt selector) ↔
      StepsTo recursive start path ∧ (document.get? path).isSome = true ∧
        selector.picks document path = true := by
  rw [List.mem_flatMap]
  constructor
  · intro given
    obtain ⟨⟨place, container⟩, member, picked⟩ := given
    obtain ⟨above, direct, reached⟩ := (mem_sites_iff wf found).mp member
    obtain ⟨⟨key, rfl⟩, rest⟩ := (mem_pickedAt_iff wf reached selector).mp picked
    exact ⟨stepsTo_concat_iff.mpr ⟨above, direct⟩, rest⟩
  · intro given
    obtain ⟨steps, reached, picked⟩ := given
    obtain ⟨front, key, rfl⟩ := steps.1.exists_eq_concat
    obtain ⟨above, direct⟩ := stepsTo_concat_iff.mp steps
    obtain ⟨container, inside⟩ : ∃ container, document.get? front = some container := by
      cases inside : document.get? front with
      | none => simp [Json.get?_append, inside] at reached
      | some container => exact ⟨container, rfl⟩
    exact ⟨(front, container), (mem_sites_iff wf found).mpr ⟨above, direct, inside⟩,
      (mem_pickedAt_iff wf inside selector).mpr ⟨⟨key, rfl⟩, reached, picked⟩⟩

theorem mem_filter_proposed_iff {recursive : Bool} (selector : Selector) (path : Path) :
    path ∈ (proposed (some selector) recursive start value).filter (fun place =>
        passes comparison false (document.resolve place)) ↔
      StepsTo recursive start path ∧ (document.get? path).isSome = true ∧
        selector.picks document path = true ∧ satisfies document comparison path = true := by
  have kept : ∀ place : Path, passes comparison false (document.resolve place) = true →
      (document.get? place).isSome = true := fun place holds =>
    ((passes_resolve_iff document comparison place).mp holds).2.1
  have listed : path ∈ (proposed (some selector) recursive start value).filter (fun place =>
        passes comparison false (document.resolve place)) ↔
      (StepsTo recursive start path ∧ (document.get? path).isSome = true ∧
        selector.picks document path = true) ∧
        passes comparison false (document.resolve path) = true := by
    by_cases star : selector = .wildcard
    · subst star
      rw [proposed, List.mem_filter, List.mem_map]
      refine and_congr_left fun _ => ?_
      rw [Option.isSome_iff_exists]
      constructor
      · intro given
        obtain ⟨node, member, same⟩ := given
        obtain ⟨steps, reached⟩ := (mem_descendants_iff wf found).mp ⟨node, member, same, rfl⟩
        exact ⟨steps, ⟨_, reached⟩, rfl⟩
      · intro given
        obtain ⟨steps, ⟨target, reached⟩, -⟩ := given
        obtain ⟨node, member, same, -⟩ := (mem_descendants_iff wf found).mpr ⟨steps, reached⟩
        exact ⟨node, member, same⟩
    · rw [filter_proposed found (.inl star) kept, List.mem_filter,
        mem_flatMap_pickedAt_iff wf found]
  rw [listed, passes_resolve_iff]
  constructor
  · intro given
    obtain ⟨⟨steps, reached, picked⟩, -, -, holds⟩ := given
    exact ⟨steps, reached, picked, holds⟩
  · intro given
    obtain ⟨steps, reached, picked, holds⟩ := given
    exact ⟨⟨steps, reached, picked⟩, steps.1.ne_nil, reached, holds⟩

theorem nodup_flatMap_pickedAt (recursive : Bool) {selector : Selector}
    (distinct : selector.Distinct) :
    ((sites recursive start value).flatMap (pickedAt selector)).Nodup := by
  rw [List.nodup_flatMap]
  constructor
  · rintro ⟨place, container⟩ member
    obtain ⟨-, -, reached⟩ := (mem_sites_iff wf found).mp member
    refine (Selector.nodup_keysIn (wf.get? reached) distinct).map ?_
    intro key other same
    simpa using same
  · have places : ((sites recursive start value).map Prod.fst).Nodup := by
      cases recursive with
      | false => simp [sites]
      | true => exact Json.nodup_selfAndBelow (wf.get? found) start
    rw [List.Nodup, List.pairwise_map] at places
    refine List.Pairwise.imp ?_ places
    rintro ⟨place, container⟩ ⟨other, sibling⟩ different path here there
    obtain ⟨key, -, rfl⟩ := List.mem_map.mp here
    obtain ⟨again, -, same⟩ := List.mem_map.mp there
    have equal := congrArg List.dropLast same
    simp only [List.dropLast_concat] at equal
    exact different equal.symm

theorem pairwise_flatMap_pickedAt (selector : Selector) :
    (((sites true start value).flatMap (pickedAt selector)).map List.dropLast).Pairwise
      fun first second =>
        ((sites true start value).map Prod.fst).idxOf first ≤
          ((sites true start value).map Prod.fst).idxOf second := by
  have places : ((sites true start value).map Prod.fst).Nodup :=
    Json.nodup_selfAndBelow (wf.get? found) start
  have front : ∀ (site : Path × Json) (path : Path), path ∈ pickedAt selector site →
      path.dropLast = site.1 := by
    intro site path picked
    obtain ⟨key, -, rfl⟩ := List.mem_map.mp picked
    exact List.dropLast_concat
  rw [List.pairwise_map, List.pairwise_flatMap]
  constructor
  · intro site member
    apply List.pairwise_of_forall_mem_list
    intro first here second there
    rw [front site first here, front site second there]
  · have ordered := pairwise_idxOf_le places
    rw [List.pairwise_map] at ordered
    refine ordered.imp ?_
    intro site other less first here second there
    rwa [front site first here, front other second there]

theorem filter_below_passes :
    ((value.preorder start).map Descendant.path).filter (fun path =>
        passes comparison false (document.resolve path)) =
      ((value.preorder start).map Descendant.path).filter (satisfies document comparison) := by
  apply List.filter_congr
  intro path inside
  obtain ⟨rest, below, rfl, reached⟩ := (Json.mem_preorder_paths_iff (wf.get? found)).mp inside
  rw [Bool.eq_iff_iff, passes_resolve_iff, Json.get?_append, found, Option.bind_some]
  exact ⟨fun all => all.2.2, fun kept => ⟨by simp [below], reached, kept⟩⟩

theorem selectStep_wildcard (current : Path) (present : value.isNull = false) :
    selectStep document current (.keyed .descendants (some .wildcard) comparison false) [start] =
      ((value.preorder start).map Descendant.path).filter (satisfies document comparison) := by
  rw [selectStep_keyed_singleton found present, proposed, Json.descendants_true,
    ← Json.map_path_preorder, filter_below_passes wf found]

omit wf in
theorem selectStep_of_ne_wildcard (current : Path) (present : value.isNull = false)
    {selector : Selector} (plain : selector ≠ .wildcard) :
    selectStep document current (.keyed .descendants (some selector) comparison false) [start] =
      ((sites true start value).flatMap (pickedAt selector)).filter fun path =>
        passes comparison false (document.resolve path) := by
  rw [selectStep_keyed_singleton found present]
  apply filter_proposed found (.inl plain)
  intro place kept
  exact ((passes_resolve_iff document comparison place).mp kept).2.1

theorem mem_selectStep_iff (current : Path) (present : value.isNull = false) (selector : Selector)
    (path : Path) :
    path ∈ selectStep document current (.keyed .descendants (some selector) comparison false)
        [start] ↔
      ProperPrefix start path ∧ (document.get? path).isSome = true ∧
        selector.picks document path = true ∧ satisfies document comparison path = true := by
  rw [selectStep_keyed_singleton found present, mem_filter_proposed_iff wf found]
  simp [StepsTo]

theorem nodup_selectStep (current : Path) (present : value.isNull = false) {selector : Selector}
    (distinct : selector.Distinct) :
    (selectStep document current (.keyed .descendants (some selector) comparison false)
      [start]).Nodup := by
  by_cases star : selector = .wildcard
  · subst star
    rw [selectStep_wildcard wf found comparison current present]
    exact (Json.nodup_preorder_paths (wf.get? found) start).filter _
  · rw [selectStep_of_ne_wildcard found comparison current present star]
    exact (nodup_flatMap_pickedAt wf found true distinct).filter _

end Descendants

/-- Going down from one node selects exactly the paths below it that the selector picks and
whose values satisfy the comparison, each once.  A star gives them in pre-order; names and
indices give them by the pre-order of their containers, the start first, and up to order
select what a star does and the selector picks. -/
theorem selectStep_descendants_exact (document : Json) (wf : document.WellFormed)
    (current start : Path) (value : Json) (found : document.get? start = some value)
    (present : value.isNull = false) (selector : Selector) (distinct : selector.Distinct)
    (comparison : Option Comparison) :
    (∀ path : Path,
        path ∈ selectStep document current
            (.keyed .descendants (some selector) comparison false) [start] ↔
          ProperPrefix start path ∧ (document.get? path).isSome = true ∧
            selector.picks document path = true ∧ satisfies document comparison path = true) ∧
      (selectStep document current
        (.keyed .descendants (some selector) comparison false) [start]).Nodup ∧
      (selector = .wildcard →
        selectStep document current
            (.keyed .descendants (some selector) comparison false) [start] =
          ((value.preorder start).map Descendant.path).filter (satisfies document comparison)) ∧
      (selector ≠ .wildcard →
        ((selectStep document current
            (.keyed .descendants (some selector) comparison false) [start]).map
              List.dropLast).Pairwise fun first second =>
          (start :: (value.preorder start).map Descendant.path).idxOf first ≤
            (start :: (value.preorder start).map Descendant.path).idxOf second) ∧
      (selectStep document current
          (.keyed .descendants (some selector) comparison false) [start]).Perm
        ((selectStep document current
          (.keyed .descendants (some .wildcard) comparison false) [start]).filter
            fun path => selector.picks document path) := by
  have members := mem_selectStep_iff wf found comparison current present
  have once := nodup_selectStep wf found comparison current present distinct
  refine ⟨members selector, once, ?_, ?_, ?_⟩
  · intro same
    subst same
    exact selectStep_wildcard wf found comparison current present
  · intro plain
    rw [selectStep_of_ne_wildcard found comparison current present plain,
      ← Json.map_fst_selfAndBelow]
    exact (pairwise_flatMap_pickedAt wf found selector).sublist
      (List.filter_sublist.map List.dropLast)
  · have all : (selectStep document current
        (.keyed .descendants (some .wildcard) comparison false) [start]).Nodup :=
      nodup_selectStep wf found comparison current present trivial
    rw [List.perm_ext_iff_of_nodup once (all.filter _)]
    intro path
    rw [List.mem_filter, members, members]
    simp only [Selector.picks, true_and]
    constructor
    · intro given
      obtain ⟨above, reached, picked, kept⟩ := given
      exact ⟨⟨above, reached, kept⟩, picked⟩
    · intro given
      obtain ⟨⟨above, reached, kept⟩, picked⟩ := given
      exact ⟨above, reached, picked, kept⟩

theorem selectStep_descendants_exact_last_elements :
    let document : Json := .obj [("list", .arr [.arr [.str "x", .null], .arr [.bool true]])]
    let value : Json := .arr [.arr [.str "x", .null], .arr [.bool true]]
    let selected := selectStep document []
      (.keyed .descendants (some (.index (-1))) (some ⟨.notEqual, .null⟩) false) [[.name "list"]]
    document.WellFormed ∧ document.get? [.name "list"] = some value ∧ value.isNull = false ∧
      (Selector.index (-1)).Distinct ∧ selected.Nodup ∧
      [.name "list", .index 1, .index 0] ∈ selected ∧
      [.name "list", .index 0, .index 1] ∉ selected := by
  intro document value selected
  have wf : document.WellFormed := by
    simp [document, Json.WellFormed, Json.ElementsWellFormed, Json.MembersWellFormed]
  have found : document.get? [.name "list"] = some value := rfl
  obtain ⟨members, once, -⟩ := selectStep_descendants_exact document wf [] [.name "list"] value
    found rfl (.index (-1)) trivial (some ⟨.notEqual, .null⟩)
  refine ⟨wf, found, rfl, trivial, once, ?_, ?_⟩
  · exact (members _).mpr ⟨by decide, rfl, rfl, rfl⟩
  · intro selects
    have kept := ((members _).mp selects).2.2.2
    exact absurd kept (by decide)

end PathQuery
