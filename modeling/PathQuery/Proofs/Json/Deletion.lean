import Mathlib.Data.Finset.Card
import Mathlib.Data.List.Infix
import PathQuery.Json.Removal
import PathQuery.Proofs.Json.Tree

/-!
# Removing many paths is one deletion

`removeAll` looks every path up in the document that the paths before it left.
Nothing it does moves another node: after any number of paths the document is
`without` the paths so far (`RemovedSoFar`), and the next path is found there
exactly if it leads somewhere in the first document and no path above it has
come before.  So the order of the paths shows in the count alone.
-/

set_option autoImplicit false

namespace PathQuery

/-- `first` is listed, and before every listing of `second`. -/
def Earlier (paths : List Path) (first second : Path) : Prop :=
  first ∈ paths ∧ paths.idxOf first < paths.idxOf second

instance (paths : List Path) (first second : Path) : Decidable (Earlier paths first second) :=
  inferInstanceAs (Decidable (_ ∧ _))

namespace Json

theorem elementsWithout_eq_mapIdx (paths : List Path) (here : Path) (elements : List Json) :
    ∀ position : Nat, elementsWithout paths here position elements =
      elements.mapIdx fun i value =>
        if here ++ [.index (position + i : Nat)] ∈ paths then .null
        else value.without paths (here ++ [.index (position + i : Nat)]) := by
  induction elements with
  | nil => intro position; simp [elementsWithout]
  | cons value rest ih =>
    intro position
    rw [elementsWithout, ih, List.mapIdx_cons]
    congr 1
    congr 1
    funext i value
    rw [Nat.add_right_comm, Nat.add_assoc]

theorem membersWithout_eq_map (paths : List Path) (here : Path)
    (members : List (String × Json)) :
    membersWithout paths here members =
      (members.filter fun member => here ++ [.name member.1] ∉ paths).map fun member =>
        (member.1, member.2.without paths (here ++ [.name member.1])) := by
  induction members with
  | nil => simp [membersWithout]
  | cons member rest ih =>
    rw [membersWithout, ih]
    by_cases listed : here ++ [.name member.1] ∈ paths <;> simp [listed]

theorem without_arr (paths : List Path) (here : Path) (elements : List Json) :
    (arr elements).without paths here = .arr (elements.mapIdx fun position value =>
      if here ++ [.index position] ∈ paths then .null
      else value.without paths (here ++ [.index position])) := by
  rw [without, elementsWithout_eq_mapIdx]
  simp

theorem without_obj (paths : List Path) (here : Path) (members : List (String × Json)) :
    (obj members).without paths here =
      .obj ((members.filter fun member => here ++ [.name member.1] ∉ paths).map fun member =>
        (member.1, member.2.without paths (here ++ [.name member.1]))) := by
  rw [without, membersWithout_eq_map]

theorem without_eq_of_children {paths others : List Path} {here : Path} (value : Json)
    (alike : ∀ key child, (key, child) ∈ value.children →
      (here ++ [key] ∈ paths ↔ here ++ [key] ∈ others) ∧
        (here ++ [key] ∉ paths →
          child.without paths (here ++ [key]) = child.without others (here ++ [key]))) :
    value.without paths here = value.without others here := by
  cases value with
  | arr elements =>
    rw [without_arr, without_arr, arr.injEq]
    apply List.ext_getElem?
    intro position
    rw [List.getElem?_mapIdx, List.getElem?_mapIdx]
    cases found : elements[position]? with
    | none => rfl
    | some child =>
      obtain ⟨listed, below⟩ := alike (.index position) child
        (mem_children_arr.mpr ⟨position, rfl, found⟩)
      by_cases gone : here ++ [.index position] ∈ paths
      · simp [gone, listed.mp gone]
      · simp [gone, listed.not.mp gone, below gone]
  | obj members =>
    have listed : ∀ member ∈ members,
        (here ++ [.name member.1] ∈ paths ↔ here ++ [.name member.1] ∈ others) := fun member inside =>
      (alike _ member.2 (mem_children_obj.mpr ⟨member.1, rfl, inside⟩)).1
    have kept : (members.filter fun member => here ++ [.name member.1] ∉ others) =
        members.filter fun member => here ++ [.name member.1] ∉ paths :=
      List.filter_congr fun member inside => by simp [listed member inside]
    rw [without_obj, without_obj, obj.injEq, kept]
    apply List.map_congr_left
    intro member inside
    obtain ⟨inside, stays⟩ := List.mem_filter.mp inside
    have below := (alike _ member.2 (mem_children_obj.mpr ⟨member.1, rfl, inside⟩)).2
      (by simpa using stays)
    rw [below]
  | _ => simp [without]

theorem without_congr {paths others : List Path} (value : Json) :
    ∀ {here : Path}, (∀ rest : Path, rest ≠ [] → (here ++ rest ∈ paths ↔ here ++ rest ∈ others)) →
      value.without paths here = value.without others here := by
  induction value using childInduction with
  | step value ih =>
    intro here same
    apply without_eq_of_children
    intro key child member
    refine ⟨same [key] (by simp), fun _ => ih key child member ?_⟩
    intro rest _
    rw [List.append_assoc]
    exact same (key :: rest) (by simp)

theorem without_cons_of_ne {paths : List Path} {here rest : Path} {key other : Key} (child : Json)
    (different : other ≠ key) :
    child.without ((here ++ key :: rest) :: paths) (here ++ [other]) =
      child.without paths (here ++ [other]) := by
  apply without_congr
  intro back _
  simp [different]

/-- Whether one of the listed paths leads to a node strictly between `here` and
the end of `path`. -/
def CutOff (paths : List Path) (here path : Path) : Prop :=
  ∃ front : Path, front ≠ [] ∧ ProperPrefix front path ∧ here ++ front ∈ paths

theorem not_cutOff_singleton (paths : List Path) (here : Path) (key : Key) :
    ¬ CutOff paths here [key] := by
  intro given
  obtain ⟨front, start, above, -⟩ := given
  obtain ⟨first, back, rfl⟩ := List.exists_cons_of_ne_nil start
  exact not_properPrefix_nil back (properPrefix_cons_iff.mp above).2

theorem cutOff_cons_iff {paths : List Path} {here rest : Path} {key : Key} (further : rest ≠ []) :
    CutOff paths here (key :: rest) ↔
      here ++ [key] ∈ paths ∨ CutOff paths (here ++ [key]) rest := by
  constructor
  · intro given
    obtain ⟨front, start, above, listed⟩ := given
    obtain ⟨first, back, rfl⟩ := List.exists_cons_of_ne_nil start
    obtain ⟨rfl, shorter⟩ := properPrefix_cons_iff.mp above
    by_cases direct : back = []
    · subst direct
      exact .inl listed
    · exact .inr ⟨back, direct, shorter, by simpa using listed⟩
  · intro either
    rcases either with listed | ⟨front, start, above, listed⟩
    · refine ⟨[key], by simp, properPrefix_cons_iff.mpr ⟨rfl, ?_⟩, listed⟩
      exact ⟨List.nil_prefix, Ne.symm further⟩
    · exact ⟨key :: front, by simp, properPrefix_cons_iff.mpr ⟨rfl, above⟩, by simpa using listed⟩

theorem without_cons_of_unreachable {paths : List Path} {path : Path} (below : path ≠ []) :
    ∀ {value : Json} {here : Path}, value.WellFormed →
      (value.get? path = none ∨ CutOff paths here path) →
      value.without ((here ++ path) :: paths) here = value.without paths here := by
  induction path with
  | nil => exact absurd rfl below
  | cons key rest ih =>
    intro value here wf unreachable
    apply without_eq_of_children
    intro other child member
    by_cases through : other = key
    · subst through
      have found := (child?_eq_some_iff wf).mpr member
      by_cases last : rest = []
      · subst last
        rcases unreachable with nowhere | cut
        · simp [found] at nowhere
        · exact absurd cut (not_cutOff_singleton paths here other)
      · refine ⟨by simp [last], fun stays => ?_⟩
        have kept : here ++ [other] ∉ paths := fun listed => stays (List.mem_cons_of_mem _ listed)
        have deeper : child.get? rest = none ∨ CutOff paths (here ++ [other]) rest := by
          rcases unreachable with nowhere | cut
          · exact .inl (by simpa [found] using nowhere)
          · exact .inr (((cutOff_cons_iff last).mp cut).resolve_left kept)
        simpa using ih last (wf.child member) deeper
    · exact ⟨by simp [through], fun _ => without_cons_of_ne child through⟩

theorem removeChild?_isSome (container : Json) (key : Key) :
    (container.removeChild? key).isSome = (container.child? key).isSome := by
  cases container with
  | arr elements =>
    cases key with
    | index position =>
      cases position with
      | ofNat position =>
        rw [removeChild?, child?]
        by_cases bound : position < elements.length <;> simp [bound]
      | negSucc position => simp [removeChild?, child?]
    | _ => rfl
  | obj members =>
    cases key with
    | name text =>
      rw [removeChild?, child?]
      by_cases found : (members.lookup text).isSome = true <;> simp [found]
    | _ => rfl
  | _ => simp [removeChild?, child?]

theorem remove?_isSome_iff (path : Path) : ∀ document : Json,
    (document.remove? path).isSome = true ↔ path ≠ [] ∧ (document.get? path).isSome = true := by
  induction path with
  | nil => intro document; simp [remove?]
  | cons key rest ih =>
    intro document
    cases rest with
    | nil =>
      rw [remove?, removeChild?_isSome, get?_cons]
      cases document.child? key <;> simp
    | cons next rest =>
      rw [remove?, get?_cons]
      cases document.child? key with
      | none => simp
      | some child => simpa using ih child

theorem lookup_membersWithout (paths : List Path) (here : Path) (text : String)
    (members : List (String × Json)) :
    (membersWithout paths here members).lookup text =
      if here ++ [.name text] ∈ paths then none
      else (members.lookup text).map fun child => child.without paths (here ++ [.name text]) := by
  induction members with
  | nil => simp [membersWithout]
  | cons member rest ih =>
    obtain ⟨key, value⟩ := member
    rw [membersWithout]
    by_cases same : text = key
    · subst same
      by_cases listed : here ++ [.name text] ∈ paths
      · simp [listed, ih]
      · simp [listed]
    · have different : (text == key) = false := by simpa using same
      by_cases listed : here ++ [.name key] ∈ paths <;>
        simp [listed, List.lookup_cons, different, ih]

theorem child?_without (paths : List Path) (here : Path) (value : Json) (key : Key) :
    (value.without paths here).child? key =
      if here ++ [key] ∈ paths then
        if value.isArray then (value.child? key).map fun _ => .null else none
      else (value.child? key).map fun child => child.without paths (here ++ [key]) := by
  cases value with
  | arr elements =>
    rw [without_arr]
    cases key with
    | index position =>
      cases position with
      | ofNat position =>
        simp only [child?, List.getElem?_mapIdx, isArray, if_true]
        by_cases listed : here ++ [.index (Int.ofNat position)] ∈ paths
        · simp [listed, ← Int.ofNat_eq_natCast]
        · simp [listed, ← Int.ofNat_eq_natCast]
      | negSucc position => simp [child?]
    | _ => simp [child?]
  | obj members =>
    rw [without]
    cases key with
    | name text => simp [child?, lookup_membersWithout, isArray]
    | _ => simp [child?]
  | _ => simp [without, child?, isArray]

theorem get?_without_of_cutOff {paths : List Path} {path : Path} :
    ∀ {value : Json} {here : Path}, CutOff paths here path →
      (value.without paths here).get? path = none := by
  induction path with
  | nil =>
    rintro value here ⟨front, -, above, -⟩
    exact absurd above (not_properPrefix_nil front)
  | cons key rest ih =>
    intro value here cut
    have further : rest ≠ [] := by
      intro same
      subst same
      exact not_cutOff_singleton paths here key cut
    obtain ⟨next, back, rfl⟩ := List.exists_cons_of_ne_nil further
    rw [get?_cons, child?_without]
    by_cases listed : here ++ [key] ∈ paths
    · rw [if_pos listed]
      split <;> cases value.child? key <;> simp [child?_null]
    · rw [if_neg listed]
      have deeper := ((cutOff_cons_iff further).mp cut).resolve_left listed
      cases value.child? key with
      | none => rfl
      | some child => exact ih deeper

theorem get?_without_of_get?_eq_none {paths : List Path} {path : Path} :
    ∀ {value : Json} {here : Path}, value.get? path = none →
      (value.without paths here).get? path = none := by
  induction path with
  | nil => intro value here nowhere; simp at nowhere
  | cons key rest ih =>
    intro value here nowhere
    rw [get?_cons, child?_without]
    cases found : value.child? key with
    | none => split <;> simp
    | some child =>
      have deeper : child.get? rest = none := by simpa [found] using nowhere
      by_cases listed : here ++ [key] ∈ paths
      · rw [if_pos listed]
        cases rest with
        | nil => simp at deeper
        | cons next rest => split <;> simp [child?_null]
      · rw [if_neg listed]
        exact ih deeper

theorem remove?_without_eq_none {paths : List Path} {here path : Path} {value : Json}
    (unreachable : value.get? path = none ∨ CutOff paths here path) :
    (value.without paths here).remove? path = none := by
  have nowhere : (value.without paths here).get? path = none :=
    unreachable.elim get?_without_of_get?_eq_none get?_without_of_cutOff
  rw [← Option.not_isSome_iff_eq_none, remove?_isSome_iff, nowhere]
  simp

theorem set_mapIdx {α β : Type} {elements : List α} {old new : Nat → α → β} {position : Nat}
    {value : α} {result : β} (found : elements[position]? = some value)
    (here : new position value = result)
    (elsewhere : ∀ i other, i ≠ position → new i other = old i other) :
    (elements.mapIdx old).set position result = elements.mapIdx new := by
  have bound : position < elements.length := (List.getElem?_eq_some_iff.mp found).1
  apply List.ext_getElem?
  intro i
  rw [List.getElem?_set, List.getElem?_mapIdx, List.getElem?_mapIdx, List.length_mapIdx]
  by_cases same : position = i
  · subst same
    rw [if_pos rfl, if_pos bound, found, Option.map_some, here]
  · rw [if_neg same]
    cases elements[i]? with
    | none => rfl
    | some other => rw [Option.map_some, Option.map_some, elsewhere i other (Ne.symm same)]

theorem removeChild?_arr (elements : List Json) (position : Nat) :
    (arr elements).removeChild? (.index position) =
      if position < elements.length then some (.arr (elements.set position .null)) else none :=
  rfl

theorem replaceChild_arr (value : Json) (elements : List Json) (position : Nat) :
    replaceChild value (arr elements) (.index position) = .arr (elements.set position value) :=
  rfl

theorem index_ne {i position : Nat} (different : i ≠ position) :
    Key.index i ≠ .index position :=
  fun same => different (Int.ofNat.inj (Key.index.inj same))

theorem membersWithout_cons_of_absent {paths : List Path} {here rest : Path} {text : String}
    {members : List (String × Json)} (absent : text ∉ members.map Prod.fst) :
    membersWithout ((here ++ .name text :: rest) :: paths) here members =
      membersWithout paths here members := by
  induction members with
  | nil => rfl
  | cons member members ih =>
    obtain ⟨name, value⟩ := member
    rw [List.map_cons, List.mem_cons, not_or] at absent
    have different : Key.name name ≠ .name text := fun same => absent.1 (Key.name.inj same).symm
    have listed : here ++ [.name name] ∈ (here ++ .name text :: rest) :: paths ↔
        here ++ [.name name] ∈ paths := by
      simp [Ne.symm absent.1]
    simp only [membersWithout, listed, without_cons_of_ne value different, ih absent.2]

theorem filter_membersWithout {paths : List Path} {here : Path} {text : String}
    (members : List (String × Json)) :
    (membersWithout paths here members).filter (fun member => member.1 ≠ text) =
      membersWithout ((here ++ [.name text]) :: paths) here members := by
  induction members with
  | nil => rfl
  | cons member members ih =>
    obtain ⟨name, value⟩ := member
    rw [membersWithout, membersWithout]
    by_cases same : name = text
    · subst same
      rw [if_pos (List.mem_cons_self ..), ← ih]
      by_cases listed : here ++ [.name name] ∈ paths <;> simp [listed]
    · have different : Key.name name ≠ .name text := fun equal => same (Key.name.inj equal)
      rw [without_cons_of_ne value different, ← ih]
      by_cases listed : here ++ [.name name] ∈ paths <;> simp [listed, same]

theorem setMember_membersWithout {paths : List Path} {here rest : Path} {text : String}
    {child : Json} (further : rest ≠ []) (kept : here ++ [.name text] ∉ paths)
    {members : List (String × Json)} (distinct : (members.map Prod.fst).Nodup)
    (found : (text, child) ∈ members) :
    setMember text (child.without ((here ++ .name text :: rest) :: paths) (here ++ [.name text]))
        (membersWithout paths here members) =
      membersWithout ((here ++ .name text :: rest) :: paths) here members := by
  have listed : ∀ name : String, here ++ [.name name] ∈ (here ++ .name text :: rest) :: paths ↔
      here ++ [.name name] ∈ paths := by
    intro name
    simp [further]
  induction members with
  | nil => simp at found
  | cons member members ih =>
    obtain ⟨name, value⟩ := member
    rw [List.map_cons, List.nodup_cons] at distinct
    rw [membersWithout, membersWithout]
    simp only [listed]
    rcases List.mem_cons.mp found with equal | elsewhere
    · obtain ⟨rfl, rfl⟩ := (Prod.mk.injEq ..).mp equal
      rw [if_neg kept, if_neg kept, setMember, if_pos rfl,
        membersWithout_cons_of_absent distinct.1]
    · have same : name ≠ text := by
        intro same
        subst same
        exact distinct.1 (List.mem_map.mpr ⟨_, elsewhere, rfl⟩)
      have different : Key.name name ≠ .name text := fun equal => same (Key.name.inj equal)
      rw [without_cons_of_ne value different, ← ih distinct.2 elsewhere]
      by_cases gone : here ++ [.name name] ∈ paths
      · rw [if_pos gone, if_pos gone]
      · rw [if_neg gone, if_neg gone, setMember, if_neg same]

theorem removeChild?_without {paths : List Path} {here : Path} {value child : Json} {key : Key}
    (wf : value.WellFormed) (member : (key, child) ∈ value.children)
    (kept : here ++ [key] ∉ paths) :
    (value.without paths here).removeChild? key =
      some (value.without ((here ++ [key]) :: paths) here) := by
  cases value with
  | arr elements =>
    obtain ⟨position, rfl, found⟩ := mem_children_arr.mp member
    have bound : position < elements.length := (List.getElem?_eq_some_iff.mp found).1
    rw [without_arr, without_arr, removeChild?_arr, List.length_mapIdx, if_pos bound,
      Option.some.injEq, arr.injEq]
    apply set_mapIdx found
    · rw [if_pos (List.mem_cons_self ..)]
    · intro i other apart
      rw [without_cons_of_ne other (index_ne apart)]
      simp only [List.mem_cons, List.append_cancel_left_eq, List.cons.injEq, index_ne apart,
        false_and, false_or]
  | obj members =>
    obtain ⟨text, rfl, found⟩ := mem_children_obj.mp member
    have present : ((membersWithout paths here members).lookup text).isSome = true := by
      rw [lookup_membersWithout, if_neg kept, (lookup_eq_some_iff wf.1).mpr found]
      rfl
    rw [without, without, removeChild?, if_pos present, filter_membersWithout]
  | _ => simp [children] at member

theorem replaceChild_without {paths : List Path} {here rest : Path} {value child : Json} {key : Key}
    (wf : value.WellFormed) (member : (key, child) ∈ value.children) (further : rest ≠ [])
    (kept : here ++ [key] ∉ paths) :
    replaceChild (child.without ((here ++ key :: rest) :: paths) (here ++ [key]))
        (value.without paths here) key =
      value.without ((here ++ key :: rest) :: paths) here := by
  cases value with
  | arr elements =>
    obtain ⟨position, rfl, found⟩ := mem_children_arr.mp member
    rw [without_arr, without_arr, replaceChild_arr, arr.injEq]
    apply set_mapIdx found
    · rw [if_neg (by simp [further, kept])]
    · intro i other apart
      rw [without_cons_of_ne other (index_ne apart)]
      simp [further]
  | obj members =>
    obtain ⟨text, rfl, found⟩ := mem_children_obj.mp member
    rw [without, without, replaceChild, setMember_membersWithout further kept wf.1 found]
  | _ => simp [children] at member

/-- A path that still leads somewhere is removed as if it had been listed at once. -/
theorem remove?_without {paths : List Path} {path : Path} :
    ∀ {value : Json} {here : Path}, value.WellFormed → path ≠ [] →
      (value.get? path).isSome = true → here ++ path ∉ paths → ¬ CutOff paths here path →
      (value.without paths here).remove? path =
        some (value.without ((here ++ path) :: paths) here) := by
  induction path with
  | nil => intro value here _ below; exact absurd rfl below
  | cons key rest ih =>
    intro value here wf _ reached fresh notCut
    rw [get?_cons] at reached
    obtain ⟨child, found⟩ : ∃ child, value.child? key = some child := by
      cases found : value.child? key with
      | none => simp [found] at reached
      | some child => exact ⟨child, rfl⟩
    have member := (child?_eq_some_iff wf).mp found
    by_cases last : rest = []
    · subst last
      rw [remove?]
      exact removeChild?_without wf member fresh
    · have kept : here ++ [key] ∉ paths := fun listed =>
        notCut ((cutOff_cons_iff last).mpr (.inl listed))
      have deeper : ¬ CutOff paths (here ++ [key]) rest := fun cut =>
        notCut ((cutOff_cons_iff last).mpr (.inr cut))
      have below : (child.without paths (here ++ [key])).remove? rest =
          some (child.without ((here ++ [key] ++ rest) :: paths) (here ++ [key])) :=
        ih (wf.child member) last (by simpa [found] using reached) (by simpa using fresh) deeper
      obtain ⟨next, back, rfl⟩ := List.exists_cons_of_ne_nil last
      rw [remove?, child?_without, if_neg kept, found, Option.map_some, Option.bind_some, below]
      rw [Option.map_some, List.append_assoc, List.singleton_append,
        replaceChild_without wf member last kept]

/-! ## The count -/

/-- Whether a listed path removes something: it leads to a node other than the
root, and no path to a node above has come before it. -/
def Counted (document : Json) (paths : List Path) (path : Path) : Prop :=
  path ≠ [] ∧ (document.get? path).isSome = true ∧
    ∀ above : Path, above ≠ [] → ProperPrefix above path → ¬ Earlier paths above path

instance (document : Json) (paths : List Path) (path : Path) :
    Decidable (Counted document paths path) :=
  decidable_of_iff
    (path ≠ [] ∧ (document.get? path).isSome = true ∧
      ∀ above ∈ path.inits, above ≠ [] → above ≠ path → ¬ Earlier paths above path)
    (by simp only [Counted, ProperPrefix, List.mem_inits]; grind)

def removedCount (document : Json) (paths : List Path) : Nat :=
  (paths.toFinset.filter (Counted document paths)).card

theorem earlier_append_iff_of_mem {done more : List Path} {first second : Path}
    (known : second ∈ done) : Earlier (done ++ more) first second ↔ Earlier done first second := by
  have bound := List.idxOf_lt_length_iff.mpr known
  rw [Earlier, Earlier, List.idxOf_append_of_mem known]
  by_cases before : first ∈ done
  · simp [before, List.idxOf_append_of_mem before]
  · have late : done.length ≤ (done ++ more).idxOf first := by
      rw [List.idxOf_append_of_notMem before]
      omega
    constructor
    · intro given
      obtain ⟨-, less⟩ := given
      omega
    · intro given
      obtain ⟨listed, -⟩ := given
      exact absurd listed before

theorem earlier_append_self_iff {done : List Path} {first path : Path} (new : path ∉ done) :
    Earlier (done ++ [path]) first path ↔ first ∈ done := by
  rw [Earlier, List.idxOf_append_of_notMem new]
  by_cases before : first ∈ done
  · have bound := List.idxOf_lt_length_iff.mpr before
    simp only [List.mem_append, before, true_or, true_and, List.idxOf_append_of_mem before,
      iff_true]
    omega
  · simp only [before, iff_false]
    intro given
    obtain ⟨listed, less⟩ := given
    have same : first = path := by simpa [before] using listed
    rw [same, List.idxOf_append_of_notMem new] at less
    omega

theorem counted_append_iff_of_mem {document : Json} {done more : List Path} {path : Path}
    (known : path ∈ done) :
    Counted document (done ++ more) path ↔ Counted document done path := by
  simp only [Counted, earlier_append_iff_of_mem known]

theorem counted_append_self_iff {document : Json} {done : List Path} {path : Path}
    (new : path ∉ done) :
    Counted document (done ++ [path]) path ↔
      path ≠ [] ∧ (document.get? path).isSome = true ∧ ¬ CutOff done [] path := by
  simp only [Counted, CutOff, earlier_append_self_iff new, List.nil_append, not_exists, not_and]

theorem removedCount_append_of_mem {document : Json} {done : List Path} {path : Path}
    (known : path ∈ done) : removedCount document (done ++ [path]) = removedCount document done := by
  have same : (done ++ [path]).toFinset = done.toFinset := by
    ext other
    simp only [List.mem_toFinset, List.mem_append, List.mem_singleton]
    constructor
    · intro either
      rcases either with listed | rfl
      · exact listed
      · exact known
    · exact .inl
  rw [removedCount, removedCount, same]
  congr 1
  apply Finset.filter_congr
  intro other listed
  exact counted_append_iff_of_mem (List.mem_toFinset.mp listed)

theorem removedCount_append_of_notMem {document : Json} {done : List Path} {path : Path}
    (new : path ∉ done) :
    removedCount document (done ++ [path]) =
      removedCount document done + if Counted document (done ++ [path]) path then 1 else 0 := by
  have grown : (done ++ [path]).toFinset = insert path done.toFinset := by
    ext other
    simp
  have before : done.toFinset.filter (Counted document (done ++ [path])) =
      done.toFinset.filter (Counted document done) := by
    apply Finset.filter_congr
    intro other listed
    exact counted_append_iff_of_mem (List.mem_toFinset.mp listed)
  rw [removedCount, removedCount, grown, Finset.filter_insert, before]
  by_cases counted : Counted document (done ++ [path]) path
  · rw [if_pos counted, if_pos counted, Finset.card_insert_of_notMem (by simp [new])]
  · rw [if_neg counted, if_neg counted, Nat.add_zero]

/-- What holds once the paths `done` have been taken. -/
structure RemovedSoFar (document : Json) (done : List Path) (state : Removal) : Prop where
  document_eq : state.document = document.without done []
  removed_eq : state.removed = removedCount document done
  mem_seen_iff : ∀ path : Path, path ∈ state.seen ↔ path ≠ [] ∧ path ∈ done

theorem without_nil (value : Json) : ∀ here : Path, value.without [] here = value := by
  induction value using childInduction with
  | step value ih =>
    intro here
    cases value with
    | arr elements =>
      rw [without_arr, arr.injEq]
      apply List.ext_getElem?
      intro position
      rw [List.getElem?_mapIdx]
      cases found : elements[position]? with
      | none => rfl
      | some child =>
        have below := ih (.index position) child (mem_children_arr.mpr ⟨position, rfl, found⟩)
        simp [below]
    | obj members =>
      have kept : ∀ member ∈ members,
          (member.1, member.2.without [] (here ++ [.name member.1])) = member := by
        intro member inside
        have below := ih (.name member.1) member.2 (mem_children_obj.mpr ⟨member.1, rfl, inside⟩)
        rw [below]
      rw [without_obj, obj.injEq]
      simpa using List.map_congr_left kept
    | _ => rfl

theorem removedSoFar_start (document : Json) : RemovedSoFar document [] ⟨document, 0, []⟩ := by
  refine ⟨(without_nil document []).symm, ?_, ?_⟩
  · simp [removedCount]
  · simp

theorem RemovedSoFar.step {document : Json} (wf : document.WellFormed) {done : List Path}
    {state : Removal} (before : RemovedSoFar document done state) {path : Path}
    (plain : path.Plain) : RemovedSoFar document (done ++ [path]) (state.step path) := by
  have listed : ∀ other : Path, other ∈ done ++ [path] ↔ other ∈ path :: done := by
    intro other
    simp [or_comm]
  have reordered : document.without (done ++ [path]) [] = document.without (path :: done) [] :=
    without_congr document fun rest _ => listed rest
  rw [Removal.step, plain.map_withoutFlag]
  by_cases passed : path = [] ∨ path ∈ state.seen
  · -- The root is never deleted and never counted; a repeated path adds nothing.
    rw [if_pos passed]
    have same : ∀ other : Path, other ≠ [] → (other ∈ done ++ [path] ↔ other ∈ done) := by
      intro other below
      rcases passed with root | again
      · simp [root, below]
      · have known := ((before.mem_seen_iff path).mp again).2
        rw [listed, List.mem_cons]
        exact ⟨fun either => either.elim (fun equal => equal ▸ known) id, .inr⟩
    refine ⟨?_, ?_, ?_⟩
    · rw [before.document_eq]
      exact without_congr document fun rest below => (same rest below).symm
    · rw [before.removed_eq]
      by_cases known : path ∈ done
      · rw [removedCount_append_of_mem known]
      · have root : path = [] :=
          passed.resolve_right fun again => known ((before.mem_seen_iff path).mp again).2
        rw [removedCount_append_of_notMem known, if_neg fun counted => counted.1 root,
          Nat.add_zero]
    · intro other
      rw [before.mem_seen_iff]
      exact and_congr_right fun below => (same other below).symm
  · rw [if_neg passed]
    rw [not_or, before.mem_seen_iff, not_and] at passed
    obtain ⟨below, unseen⟩ := passed
    have new := unseen below
    have seen : ∀ other : Path,
        other ∈ path :: state.seen ↔ other ≠ [] ∧ other ∈ done ++ [path] := by
      intro other
      rw [List.mem_cons, before.mem_seen_iff, listed, List.mem_cons]
      grind
    have count : removedCount document (done ++ [path]) = removedCount document done +
        if Counted document (done ++ [path]) path then 1 else 0 :=
      removedCount_append_of_notMem new
    by_cases counted : Counted document (done ++ [path]) path
    · obtain ⟨-, reached, notCut⟩ := (counted_append_self_iff new).mp counted
      have removed : (document.without done []).remove? path =
          some (document.without (path :: done) []) :=
        remove?_without wf below reached new notCut
      rw [before.document_eq, removed]
      refine ⟨reordered.symm, ?_, seen⟩
      rw [count, if_pos counted, before.removed_eq]
    · have unreachable : document.get? path = none ∨ CutOff done [] path := by
        rw [counted_append_self_iff new] at counted
        by_contra both
        rw [not_or] at both
        exact counted ⟨below, Option.isSome_iff_ne_none.mpr both.1, both.2⟩
      have kept : document.without (path :: done) [] = document.without done [] :=
        without_cons_of_unreachable below wf unreachable
      rw [before.document_eq, remove?_without_eq_none unreachable]
      refine ⟨?_, ?_, seen⟩
      · rw [reordered, kept]
      · rw [count, if_neg counted, before.removed_eq]
        rfl

theorem RemovedSoFar.foldl {document : Json} (wf : document.WellFormed) {more : List Path}
    (plain : ∀ path ∈ more, path.Plain) :
    ∀ {done : List Path} {state : Removal}, RemovedSoFar document done state →
      RemovedSoFar document (done ++ more) (more.foldl Removal.step state) := by
  induction more with
  | nil => intro done state before; simpa using before
  | cons path more ih =>
    intro done state before
    obtain ⟨first, later⟩ := List.forall_mem_cons.mp plain
    rw [List.foldl_cons, List.append_cons]
    exact ih later (before.step wf first)

theorem removeAll_eq_removedCount (document : Json) (wf : document.WellFormed)
    {paths : List Path} (plain : ∀ path ∈ paths, path.Plain) :
    document.removeAll paths = (document.without paths [], removedCount document paths) := by
  have final := (removedSoFar_start document).foldl wf plain
  rw [List.nil_append] at final
  rw [removeAll, final.document_eq, final.removed_eq]

/-- Removing paths of names and numbers one after the other deletes them all at once.  The count
is that of the distinct listed paths which lead to a node and of which no listed path above comes
earlier; only it depends on the order. -/
theorem removeAll_eq_without (document : Json) (wf : document.WellFormed) (paths : List Path)
    (plain : ∀ path ∈ paths, path.Plain) :
    document.removeAll paths =
        (document.without paths [], (paths.toFinset.filter (Counted document paths)).card) ∧
      ∀ others : List Path, (∀ path : Path, path ∈ others ↔ path ∈ paths) →
        (document.removeAll others).1 = (document.removeAll paths).1 := by
  refine ⟨removeAll_eq_removedCount document wf plain, ?_⟩
  intro others same
  have plain' : ∀ path ∈ others, path.Plain := fun path listed => plain path ((same path).mp listed)
  rw [removeAll_eq_removedCount document wf plain', removeAll_eq_removedCount document wf plain]
  exact without_congr document fun rest _ => same rest

theorem removeAll_eq_without_inner_first :
    let document := obj [("a", arr [obj [("b", bool true)], null]), ("c", bool false)]
    let paths : List Path := [[.name "a", .index 0, .name "b"], [], [.name "a", .index 0],
      [.name "c"], [.name "a", .index 0, .name "b"], [.name "a", .index 2]]
    document.WellFormed ∧ (∀ path ∈ paths, path.Plain) ∧
      document.removeAll paths = (obj [("a", arr [null, null])], 3) := by
  intro document paths
  have wf : document.WellFormed := by
    simp [document, WellFormed, ElementsWellFormed, MembersWellFormed]
  have plain : ∀ path ∈ paths, path.Plain := by simp [paths, Path.Plain]
  refine ⟨wf, plain, ?_⟩
  rw [(removeAll_eq_without document wf paths plain).1]
  refine Prod.ext ?_ ?_
  · simp [document, paths, without, elementsWithout, membersWithout]
  · decide +kernel

end Json

end PathQuery
