import PathQuery.Proofs.Prune.Payload
import PathQuery.Proofs.Query.AncestorsFirst

/-!
# Which lines lose a node

A compiled query removes a node from a document exactly if it selects one
besides the root (`prune_pos_iff`).  The lines that are counted as pruned are
therefore those that lose a node and those of which the root alone is selected,
which is never removed (`linesPruned_counts`).
-/

set_option autoImplicit false

namespace PathQuery

open Evaluate

theorem exists_topmost {paths : List Path} {path : Path} (listed : path ∈ paths)
    (below : path ≠ []) : ∃ top ∈ paths, Topmost paths top := by
  induction size : path.length using Nat.strong_induction_on generalizing path with
  | _ size ih =>
    by_cases top : Topmost paths path
    · exact ⟨path, listed, top⟩
    · obtain ⟨above, higher, some', proper⟩ :
          ∃ above ∈ paths, above ≠ [] ∧ ProperPrefix above path := by
        simpa [Topmost, below] using top
      exact ih above.length (size ▸ proper.length_lt) higher some' rfl

theorem prune_pos_iff {plan : Plan} (plain : ∀ step ∈ plan.steps, step.negated = false)
    {document : Json} (wf : document.WellFormed) :
    0 < (prune (some plan) document).2 ↔ ∃ path ∈ select (some plan) document [], path ≠ [] := by
  rw [Plan.prune_count wf plain, Finset.card_pos]
  constructor
  · rintro ⟨path, listed⟩
    rw [Finset.mem_filter, List.mem_toFinset] at listed
    exact ⟨path, listed.1, listed.2.1⟩
  · rintro ⟨path, listed, below⟩
    obtain ⟨top, member, topmost⟩ := exists_topmost listed below
    exact ⟨top, Finset.mem_filter.mpr ⟨List.mem_toFinset.mpr member, topmost⟩⟩

/-- Whether a line holds a container that pruning removes a node from. -/
def losesNode (plan : Plan) (line : List Char) : Bool :=
  (decoded? line).any fun document => 0 < (prune (some plan) document).2

/-- Whether a line holds a container of which the root is selected and no other node. -/
def selectsRootAlone (plan : Plan) (line : List Char) : Bool :=
  (decoded? line).any fun document =>
    !(select (some plan) document []).isEmpty &&
      (select (some plan) document []).all fun path => path = []

section Line

variable {plan : Plan} (plain : ∀ step ∈ plan.steps, step.negated = false)

include plain

theorem selectsRootAlone_eq (line : List Char) :
    selectsRootAlone plan line = (touches (some plan) line && !losesNode plan line) := by
  rw [selectsRootAlone, touches, losesNode]
  cases holds : decoded? line with
  | none => rfl
  | some document =>
    have loses := prune_pos_iff plain (readable_of_decoded? holds).wellFormed
    simp only [Option.any_some]
    congr 1
    rw [Bool.eq_iff_iff, List.all_eq_true, Bool.not_eq_true', decide_eq_false_iff_not, loses]
    simp

theorem touches_of_losesNode {line : List Char} (loses : losesNode plan line = true) :
    touches (some plan) line = true := by
  rw [losesNode, Option.any_eq_true] at loses
  obtain ⟨document, holds, removed⟩ := loses
  have readable := readable_of_decoded? holds
  obtain ⟨path, listed, -⟩ := (prune_pos_iff plain readable.wellFormed).mp (by simpa using removed)
  rw [touches, holds, Option.any_some, Bool.not_eq_true', List.isEmpty_eq_false_iff]
  exact List.ne_nil_of_mem listed

theorem touches_eq_or (line : List Char) :
    touches (some plan) line = (losesNode plan line || selectsRootAlone plan line) := by
  rw [selectsRootAlone_eq plain]
  cases loses : losesNode plan line with
  | false => simp
  | true => rw [touches_of_losesNode plain loses, Bool.true_or]

end Line

section Lines

variable {plan : Plan}

theorem countP_touches (plain : ∀ step ∈ plan.steps, step.negated = false)
    (lines : List (List Char)) :
    lines.countP (touches (some plan)) =
      lines.countP (losesNode plan) + lines.countP (selectsRootAlone plan) := by
  induction lines with
  | nil => rfl
  | cons line lines ih =>
    have alone := selectsRootAlone_eq plain line
    simp only [List.countP_cons, ih, touches_eq_or plain]
    cases loses : losesNode plan line with
    | false => simp only [Bool.false_or, Bool.false_eq_true, if_false]; omega
    | true =>
      rw [loses, Bool.not_true, Bool.and_false] at alone
      simp only [alone, Bool.or_false, if_true, Bool.false_eq_true, if_false]
      omega

theorem countP_losesNode_le (lines : List (List Char)) :
    lines.countP (losesNode plan) ≤
      ((lines.filterMap decoded?).map fun document => (prune (some plan) document).2).sum := by
  induction lines with
  | nil => exact Nat.zero_le 0
  | cons line lines ih =>
    rw [List.countP_cons, List.filterMap_cons, losesNode]
    cases decoded? line with
    | none => simpa using ih
    | some document =>
      simp only [Option.any_some, decide_eq_true_eq, List.map_cons, List.sum_cons]
      split <;> omega

theorem sum_removed_pos_iff (lines : List (List Char)) :
    0 < ((lines.filterMap decoded?).map fun document => (prune (some plan) document).2).sum ↔
      0 < lines.countP (losesNode plan) := by
  induction lines with
  | nil => rfl
  | cons line lines ih =>
    rw [List.countP_cons, List.filterMap_cons, losesNode]
    cases decoded? line with
    | none => simpa using ih
    | some document =>
      simp only [Option.any_some, decide_eq_true_eq, List.map_cons, List.sum_cons]
      split <;> omega

end Lines

/-- The lines that are counted as pruned are those that lose a node and those of which the root
alone is selected.  Where there are none of the latter, no more lines are counted than nodes are
removed, something has changed if a node was removed, and a line that loses none stays. -/
theorem linesPruned_counts (query : String) (plan : Plan) (compiled : compile query = .ok plan)
    (settings : Settings) (text : String) :
    let lines := Text.splitLines text.toList
    let outcome := pruneLines settings (some plan) text
    outcome.linesPruned =
        (lines.countP (losesNode plan) + lines.countP (selectsRootAlone plan) : Nat) ∧
      (outcome.linesPruned = (lines.countP (losesNode plan) : Nat) ↔
        ∀ line ∈ lines, selectsRootAlone plan line = false) ∧
      ((∀ line ∈ lines, selectsRootAlone plan line = false) →
        outcome.linesPruned ≤ outcome.keysRemoved ∧
          (outcome.changed = true ↔ 0 < outcome.keysRemoved) ∧
          ∀ (position : Nat) (line : List Char), lines[position]? = some line →
            losesNode plan line = false →
              (Text.splitLines outcome.text.toList)[position]? = some line) := by
  intro lines outcome
  have plain := negated_eq_false_of_compile compiled
  have counted : outcome.linesPruned =
      (lines.countP (losesNode plan) + lines.countP (selectsRootAlone plan) : Nat) := by
    rw [← countP_touches plain]
    exact linesPruned_pruneLines settings (some plan) text
  have removed : outcome.keysRemoved = _ := keysRemoved_pruneLines settings (some plan) text
  have fewer := @countP_losesNode_le plan lines
  have some' := @sum_removed_pos_iff plan lines
  have alone : lines.countP (selectsRootAlone plan) = 0 ↔
      ∀ line ∈ lines, selectsRootAlone plan line = false := by
    simp [List.countP_eq_zero]
  refine ⟨counted, ?_, fun none' => ⟨?_, ?_, ?_⟩⟩
  · rw [counted, ← alone]
    omega
  · rw [counted, removed, alone.mpr none']
    exact_mod_cast fewer
  · rw [Outcome.changed, decide_eq_true_eq, counted, removed, alone.mpr none']
    exact_mod_cast some'.symm
  · intro position line found kept
    have split : Text.splitLines outcome.text.toList = _ :=
      splitLines_pruneLines settings (some plan) text
    have untouched : touches (some plan) line = false := by
      rw [touches_eq_or plain, kept, none' line (List.mem_of_getElem? found), Bool.or_false]
    rw [split, List.getElem?_map, found, Option.map_some, pruneLine_of_untouched untouched]
    rfl

theorem linesPruned_counts_rows :
    let plan : Plan := .mk [.anchor .root, .keyed .children (some .wildcard) none false,
      .filter .children
        (.mk [.anchor .current, .keyed .children (some (.name "ad")) none false] 11) false] 13
    let text := "[\x7b\"ad\":1\x7d,0,\x7b\"ad\":2\x7d]\n[ \x7b\x7d ]\nx"
    let outcome := pruneLines .default (some plan) text
    compile "$[*][?(@.ad)]" = .ok plan ∧
      (∀ line ∈ Text.splitLines text.toList, selectsRootAlone plan line = false) ∧
      outcome.linesPruned = 1 ∧ outcome.keysRemoved = 2 ∧ outcome.changed = true ∧
      (Text.splitLines outcome.text.toList)[1]? = some "[ \x7b\x7d ]".toList := by
  intro plan text outcome
  have compiled : compile "$[*][?(@.ad)]" = .ok plan := rfl
  have none' : ∀ line ∈ Text.splitLines text.toList, selectsRootAlone plan line = false := by
    decide +kernel
  have removed : outcome.keysRemoved = 2 := by decide +kernel
  obtain ⟨-, counted, rest⟩ := linesPruned_counts _ plan compiled .default text
  obtain ⟨-, changed, stays⟩ := rest none'
  refine ⟨compiled, none', (counted.mpr none').trans ?_, removed, changed.mpr ?_, stays 1 _ ?_ ?_⟩
  · decide +kernel
  · exact removed ▸ (by decide : (0 : Int) < 2)
  · decide +kernel
  · decide +kernel

/-- It is not so that the lines counted as pruned are always those that lose a node: a filter may
select the root, which is not removed. -/
theorem not_linesPruned_eq_countP_losesNode :
    ¬ ∀ (query : String) (plan : Plan) (settings : Settings) (text : String),
      compile query = .ok plan → (pruneLines settings (some plan) text).linesPruned =
        ((Text.splitLines text.toList).countP (losesNode plan) : Nat) := by
  intro counts
  let plan : Plan := .mk [.anchor .root, .filter .children
    (.mk [.anchor .current, .keyed .children (some (.name "a")) none false] 7) false] 9
  have equal := counts "$[?(@.a)]" plan .default "\x7b\"a\":1\x7d" rfl
  have one : (pruneLines .default (some plan) "\x7b\"a\":1\x7d").linesPruned = 1 := by
    decide +kernel
  have none' : (Text.splitLines "\x7b\"a\":1\x7d".toList).countP (losesNode plan) = 0 := by
    decide +kernel
  rw [one, none'] at equal
  cases equal

end PathQuery
