import PathQuery.Proofs.Json.RoundTrip
import PathQuery.Proofs.Prune.Exhaustive
import PathQuery.Proofs.Text.Lines

/-!
# Payloads line by line

A written document is one line that is not empty, so a pruned payload is cut at
the same places as before, and each line is either the old one or a document
written anew (`pruneLines_by_line`).  Such a document is read back as it was,
however it is written (`written_documents_read_back`); a plan that finds nothing
in what it has pruned therefore leaves a pruned payload alone
(`pruneLines_idempotent`).
-/

set_option autoImplicit false

namespace PathQuery

namespace Json

theorem newline_notMem_elementsChars {ascii : Bool} {elements : List Json}
    (plain : ∀ value ∈ elements, '\n' ∉ chars (Escape.stringText ascii) value) :
    '\n' ∉ elementsChars (Escape.stringText ascii) elements := by
  induction elements with
  | nil => exact List.not_mem_nil
  | cons value rest ih =>
    obtain ⟨first, later⟩ := List.forall_mem_cons.mp plain
    rw [elementsChars, List.mem_append, not_or]
    refine ⟨first, ?_⟩
    split
    · exact List.not_mem_nil
    · rw [List.mem_cons, not_or]
      exact ⟨by decide, ih later⟩

theorem newline_notMem_membersChars {ascii : Bool} {members : List (String × Json)}
    (plain : ∀ member ∈ members, '\n' ∉ chars (Escape.stringText ascii) member.2) :
    '\n' ∉ membersChars (Escape.stringText ascii) members := by
  induction members with
  | nil => exact List.not_mem_nil
  | cons member rest ih =>
    obtain ⟨key, value⟩ := member
    obtain ⟨first, later⟩ := List.forall_mem_cons.mp plain
    rw [membersChars, List.mem_append, List.mem_append, List.mem_cons, not_or, not_or, not_or]
    refine ⟨⟨newline_notMem_stringText ascii key, by decide, first⟩, ?_⟩
    split
    · exact List.not_mem_nil
    · rw [List.mem_cons, not_or]
      exact ⟨by decide, ih later⟩

theorem newline_notMem_chars (ascii : Bool) (value : Json) : '\n' ∉ chars (Escape.stringText ascii) value := by
  induction value using kindInduction with
  | scalar value scalar =>
    cases value with
    | null => exact (by decide : '\n' ∉ "null".toList)
    | bool value =>
      cases value with
      | true => exact (by decide : '\n' ∉ "true".toList)
      | false => exact (by decide : '\n' ∉ "false".toList)
    | num value => exact fun listed => by cases Numeral.isPart_of_mem_chars listed
    | str value => exact newline_notMem_stringText ascii value
    | arr elements => cases scalar
    | obj members => cases scalar
  | arr elements ih =>
    rw [chars, List.mem_append, List.mem_cons, not_or, not_or]
    exact ⟨⟨by decide, newline_notMem_elementsChars ih⟩, by decide⟩
  | obj members ih =>
    rw [chars, List.mem_append, List.mem_cons, not_or, not_or]
    exact ⟨⟨by decide, newline_notMem_membersChars ih⟩, by decide⟩

end Json

namespace Settings

theorem write_eq (settings : Settings) (document : Json) :
    settings.write document =
      (Json.chars (Json.Escape.stringText settings.ascii) document).flatMap (Json.slashText settings.escapeSlashes) := by
  rw [write]
  cases settings.escapeSlashes with
  | false => exact (List.flatMap_singleton' _).symm
  | true =>
    have same : Json.slashText true = fun c => if c = '/' then ['\\', '/'] else [c] := by
      funext c
      simp [Json.slashText]
    rw [same]
    rfl

theorem newline_notMem_write (settings : Settings) (document : Json) :
    '\n' ∉ settings.write document := by
  rw [write_eq]
  exact Json.newline_notMem_slashText (Json.newline_notMem_chars _ document) _

theorem read?_write (settings : Settings) {document : Json} (readable : document.Readable) :
    Json.read? (String.ofList (settings.write document)) = some document := by
  rw [write_eq]
  exact Json.read?_chars readable _ _

theorem write_ne_nil (settings : Settings) {document : Json} (readable : document.Readable) :
    settings.write document ≠ [] := by
  intro none
  have reads := settings.read?_write readable
  rw [none] at reads
  cases reads

end Settings

theorem readable_prune {document : Json} (readable : document.Readable) (plan : Option Plan) :
    (prune plan document).1.Readable := by
  have wf := readable.wellFormed
  rw [prune, document.removeAll_eq_removedCount wf fun _ => plain_of_mem_select wf plan]
  exact readable.without _ _

/-- The object or array that a line holds. -/
def decoded? (line : List Char) : Option Json :=
  (Json.read? (String.ofList line)).filter Json.isContainer

def touches (plan : Option Plan) (line : List Char) : Bool :=
  (decoded? line).any fun document => !(select plan document []).isEmpty

theorem decoded?_eq_some_iff {line : List Char} {document : Json} :
    decoded? line = some document ↔
      Json.read? (String.ofList line) = some document ∧ document.isContainer = true := by
  rw [decoded?, Option.filter_eq_some_iff]

theorem readable_of_decoded? {line : List Char} {document : Json}
    (holds : decoded? line = some document) : document.Readable :=
  Json.readable_of_read? (decoded?_eq_some_iff.mp holds).1

section Line

variable {settings : Settings} {plan : Option Plan} {line : List Char}

theorem touches_eq_false_iff :
    touches plan line = false ↔
      ∀ document, decoded? line = some document → select plan document [] = [] := by
  rw [touches]
  cases decoded? line with
  | none => simp
  | some document => simp

theorem pruneLine_of_untouched (untouched : touches plan line = false) :
    pruneLine settings plan line = .keep line := by
  rw [touches_eq_false_iff] at untouched
  unfold pruneLine
  cases reads : Json.read? (String.ofList line) with
  | none => rfl
  | some document =>
    dsimp only
    by_cases container : document.isContainer = true
    · rw [untouched document (decoded?_eq_some_iff.mpr ⟨reads, container⟩), List.isEmpty_nil,
        Bool.or_true, if_pos rfl]
    · rw [Bool.eq_false_of_not_eq_true container, Bool.not_false, Bool.true_or, if_pos rfl]

theorem pruneLine_of_decoded {document : Json} (holds : decoded? line = some document)
    (selects : select plan document [] ≠ []) :
    pruneLine settings plan line =
      ⟨settings.write (prune plan document).1, true, (prune plan document).2⟩ := by
  obtain ⟨reads, container⟩ := decoded?_eq_some_iff.mp holds
  rw [pruneLine, reads]
  dsimp only
  rw [container, List.isEmpty_eq_false_iff.mpr selects, Bool.not_true, Bool.or_false,
    if_neg (by decide), PrunedLine.rewrite]

theorem exists_of_touches (touched : touches plan line = true) :
    ∃ document, decoded? line = some document ∧ select plan document [] ≠ [] := by
  rw [touches, Option.any_eq_true] at touched
  obtain ⟨document, holds, selects⟩ := touched
  refine ⟨document, holds, fun none => ?_⟩
  rw [none] at selects
  cases selects

theorem pruned_pruneLine : (pruneLine settings plan line).pruned = touches plan line := by
  cases touched : touches plan line with
  | false => rw [pruneLine_of_untouched touched]; rfl
  | true =>
    obtain ⟨document, holds, selects⟩ := exists_of_touches touched
    rw [pruneLine_of_decoded holds selects]

theorem newline_notMem_pruneLine (plain : '\n' ∉ line) :
    '\n' ∉ (pruneLine settings plan line).text := by
  cases touched : touches plan line with
  | false => rwa [pruneLine_of_untouched touched]
  | true =>
    obtain ⟨document, holds, selects⟩ := exists_of_touches touched
    rw [pruneLine_of_decoded holds selects]
    exact settings.newline_notMem_write _

theorem pruneLine_ne_nil (some' : line ≠ []) : (pruneLine settings plan line).text ≠ [] := by
  cases touched : touches plan line with
  | false => rwa [pruneLine_of_untouched touched]
  | true =>
    obtain ⟨document, holds, selects⟩ := exists_of_touches touched
    rw [pruneLine_of_decoded holds selects]
    exact settings.write_ne_nil (readable_prune (readable_of_decoded? holds) plan)

theorem prune_of_select_eq_nil {document : Json} (nothing : select plan document [] = []) :
    prune plan document = (document, 0) := by
  rw [prune, nothing]
  rfl

theorem removed_pruneLine :
    (pruneLine settings plan line).removed =
      ((decoded? line).map fun document => (prune plan document).2).getD 0 := by
  cases touched : touches plan line with
  | false =>
    rw [pruneLine_of_untouched touched]
    cases holds : decoded? line with
    | none => rfl
    | some document =>
      rw [Option.map_some, Option.getD_some,
        prune_of_select_eq_nil (touches_eq_false_iff.mp touched document holds)]
      rfl
  | true =>
    obtain ⟨document, holds, selects⟩ := exists_of_touches touched
    rw [pruneLine_of_decoded holds selects, holds]
    rfl

end Line

/-! ## All lines -/

section Lines

variable (settings : Settings) (plan : Option Plan) (text : String)

theorem toList_pruneLines :
    (pruneLines settings plan text).text.toList =
      Text.joinLines ((Text.splitLines text.toList).map fun line =>
        (pruneLine settings plan line).text) := by
  rw [pruneLines, Outcome.ofLines, String.toList_ofList, List.map_map]
  rfl

theorem splitLines_pruneLines :
    Text.splitLines (pruneLines settings plan text).text.toList =
      (Text.splitLines text.toList).map fun line => (pruneLine settings plan line).text := by
  rw [toList_pruneLines, ← Text.atRuns_iff]
  refine (Text.atRuns_splitLines text.toList).map (fun line listed => ?_) fun line _ => ?_
  · exact newline_notMem_pruneLine (Text.newline_not_mem_splitLines listed)
  · exact pruneLine_ne_nil

theorem linesPruned_pruneLines :
    (pruneLines settings plan text).linesPruned =
      ((Text.splitLines text.toList).countP (touches plan) : Nat) := by
  have same : PrunedLine.pruned ∘ pruneLine settings plan = touches plan :=
    funext fun line => pruned_pruneLine
  rw [pruneLines, Outcome.ofLines, List.countP_map, same]

theorem foldr_removed (lines : List (List Char)) :
    (lines.map (pruneLine settings plan)).foldr (fun line total => line.removed + total) 0 =
      ((lines.filterMap decoded?).map fun document => (prune plan document).2).sum := by
  induction lines with
  | nil => rfl
  | cons line lines ih =>
    rw [List.map_cons, List.foldr_cons, ih, removed_pruneLine, List.filterMap_cons]
    cases decoded? line with
    | none => exact Nat.zero_add _
    | some document => rfl

theorem keysRemoved_pruneLines :
    (pruneLines settings plan text).keysRemoved =
      ((((Text.splitLines text.toList).filterMap decoded?).map fun document =>
        (prune plan document).2).sum : Nat) := by
  rw [pruneLines, Outcome.ofLines, foldr_removed]

theorem pruneLines_of_untouched
    (untouched : ∀ line ∈ Text.splitLines text.toList, touches plan line = false) :
    pruneLines settings plan text =
      ⟨String.ofList (Text.joinLines (Text.splitLines text.toList)),
        (Text.splitLines text.toList).length, 0, 0⟩ := by
  have kept : (Text.splitLines text.toList).map (pruneLine settings plan) =
      (Text.splitLines text.toList).map .keep :=
    List.map_congr_left fun line listed => pruneLine_of_untouched (untouched line listed)
  rw [pruneLines, kept, Outcome.ofLines]
  generalize Text.splitLines text.toList = lines
  have removed : (lines.map PrunedLine.keep).foldr (fun line total => line.removed + total) 0 =
      0 := by
    induction lines with
    | nil => rfl
    | cons line lines ih => rw [List.map_cons, List.foldr_cons, ih]; rfl
  have texts : (lines.map PrunedLine.keep).map PrunedLine.text = lines := by
    rw [List.map_map]
    exact List.map_id lines
  have pruned : (lines.map PrunedLine.keep).countP PrunedLine.pruned = 0 := by
    rw [List.countP_map]
    exact congrFun List.countP_false lines
  rw [texts, pruned, removed, List.length_map]
  rfl

end Lines

/-- Pruning a payload keeps its lines apart and in order.  A line that holds a container in which
something is selected is written anew, any other line stays, and the numbers say how many lines
there are, how many were written anew and how many nodes were removed. -/
theorem pruneLines_by_line (settings : Settings) (plan : Option Plan) (text : String) :
    let lines := Text.splitLines text.toList
    let outcome := pruneLines settings plan text
    let after := Text.splitLines outcome.text.toList
    after.length = lines.length ∧
      (∀ (position : Nat) (line : List Char), lines[position]? = some line →
        (∀ document, decoded? line = some document → select plan document [] ≠ [] →
          after[position]? = some (settings.write (prune plan document).1)) ∧
        ((¬ ∃ document, decoded? line = some document ∧ select plan document [] ≠ []) →
          after[position]? = some line)) ∧
      outcome.linesTotal = lines.length ∧
      outcome.linesPruned = lines.countP (touches plan) ∧
      outcome.keysRemoved =
        (((lines.filterMap decoded?).map fun document => (prune plan document).2).sum : Nat) ∧
      ((∀ line ∈ lines, touches plan line = false) → outcome.changed = false ∧
        outcome.text = String.ofList (Text.collapseRuns text.toList)) := by
  intro lines outcome after
  have split : after = lines.map fun line => (pruneLine settings plan line).text :=
    splitLines_pruneLines settings plan text
  have there : ∀ (position : Nat) (line : List Char), lines[position]? = some line →
      after[position]? = some (pruneLine settings plan line).text := by
    intro position line found
    rw [split, List.getElem?_map, found, Option.map_some]
  refine ⟨by rw [split, List.length_map], fun position line found => ⟨?_, ?_⟩, ?_,
    linesPruned_pruneLines settings plan text, keysRemoved_pruneLines settings plan text, ?_⟩
  · intro document holds selects
    rw [there position line found, pruneLine_of_decoded holds selects]
  · intro absent
    have untouched : touches plan line = false := by
      by_contra touched
      exact absent (exists_of_touches (Bool.eq_true_of_not_eq_false touched))
    rw [there position line found, pruneLine_of_untouched untouched]
    rfl
  · exact congrArg Int.ofNat (List.length_map _)
  · intro untouched
    have whole : outcome = _ := pruneLines_of_untouched settings plan text untouched
    rw [whole, Text.joinLines_splitLines]
    exact ⟨rfl, rfl⟩

example :
    let plan : Plan := .mk [.anchor .root, .keyed .children (some (.name "a")) none false] 0
    let outcome := pruneLines .default (some plan) "\n\n\x7b\"a\":1,\"b\":\"/\"\x7d\n\n[0]\nx\n"
    outcome.text = "\n\x7b\"b\":\"\\/\"\x7d\n[0]\nx\n" ∧ outcome.linesTotal = 5 ∧
      outcome.linesPruned = 1 ∧ outcome.keysRemoved = 1 := by
  decide +kernel

def readLines (text : String) : List (Option Json) :=
  (Text.splitLines text.toList).map fun line => Json.read? (String.ofList line)

/-- However a document is written, it is read back; so the documents in a pruned payload do not
depend on how documents are written. -/
theorem written_documents_read_back :
    (∀ (settings : Settings) (document : Json), document.WellFormed → document.ShortNumbers →
      Json.read? (String.ofList (settings.write document)) = some document) ∧
    ∀ (settings other : Settings) (plan : Option Plan) (text : String),
      readLines (pruneLines settings plan text).text =
        readLines (pruneLines other plan text).text := by
  refine ⟨fun settings document wf short => settings.read?_write ⟨wf, short⟩, ?_⟩
  intro settings other plan text
  rw [readLines, readLines, splitLines_pruneLines, splitLines_pruneLines, List.map_map,
    List.map_map]
  refine List.map_congr_left fun line _ => ?_
  rw [Function.comp_apply, Function.comp_apply]
  cases touched : touches plan line with
  | false => rw [pruneLine_of_untouched touched, pruneLine_of_untouched touched]
  | true =>
    obtain ⟨document, holds, selects⟩ := exists_of_touches touched
    have readable := readable_prune (readable_of_decoded? holds) plan
    rw [pruneLine_of_decoded holds selects, pruneLine_of_decoded holds selects,
      settings.read?_write readable, other.read?_write readable]

theorem written_documents_read_back_mixed :
    let document : Json := .obj
      [("a/\"b", .arr [.num (.int (-5)), .num (.float (.finite true .zero)),
          .num (.float (.infinite true)), .str "\\/\n😀"]),
        ("", .obj [("/", .null)])]
    document.WellFormed ∧ document.ShortNumbers ∧
      Json.read? (String.ofList (Settings.default.write document)) = some document ∧
      Json.read? (String.ofList (Settings.write ⟨false, true, 1, by decide⟩ document)) =
        some document := by
  intro document
  have wf : document.WellFormed := by
    simp [document, Json.WellFormed, Json.ElementsWellFormed, Json.MembersWellFormed]
  have short : document.ShortNumbers := by
    simp [document, Json.ShortNumbers, Json.ElementsShort, Json.MembersShort, Number.Short]
    decide
  exact ⟨wf, short, written_documents_read_back.1 _ _ wf short,
    written_documents_read_back.1 _ _ wf short⟩

section Again

variable {settings : Settings} {plan : Plan} (named : plan.EndsInName)
  (monotone : plan.EveryStep Step.Monotone)

include named monotone

theorem touches_pruneLine (line : List Char) :
    touches (some plan) (pruneLine settings (some plan) line).text = false := by
  cases touched : touches (some plan) line with
  | false => rwa [pruneLine_of_untouched touched]
  | true =>
    obtain ⟨document, holds, selects⟩ := exists_of_touches touched
    have readable := readable_of_decoded? holds
    rw [pruneLine_of_decoded holds selects, touches_eq_false_iff]
    intro other holds'
    -- what the line is read as is what was written, the pruned document
    have same : some (prune (some plan) document).1 = some other := by
      rw [← settings.read?_write (readable_prune readable (some plan))]
      exact (decoded?_eq_some_iff.mp holds').1
    rw [← Option.some.inj same]
    exact select_prune_eq_nil named monotone readable.wellFormed

end Again

/-- A plan that ends in a name, negates nothing and compares no texts finds nothing in a payload
that it has pruned. -/
theorem pruneLines_idempotent (settings : Settings) (plan : Plan) (named : plan.EndsInName)
    (monotone : plan.EveryStep Step.Monotone) (text : String) :
    let first := pruneLines settings (some plan) text
    let again := pruneLines settings (some plan) first.text
    again.text = first.text ∧ again.linesTotal = first.linesTotal ∧ again.linesPruned = 0 ∧
      again.keysRemoved = 0 ∧ again.changed = false := by
  intro first again
  have split : Text.splitLines first.text.toList = _ :=
    splitLines_pruneLines settings (some plan) text
  have untouched : ∀ line ∈ Text.splitLines first.text.toList,
      touches (some plan) line = false := by
    rw [split, List.forall_mem_map]
    exact fun line _ => touches_pruneLine named monotone line
  have whole : again = _ := pruneLines_of_untouched settings (some plan) first.text untouched
  have joined : String.ofList (Text.joinLines (Text.splitLines first.text.toList)) =
      first.text := by
    rw [split, ← toList_pruneLines, String.ofList_toList]
  have total : ((Text.splitLines first.text.toList).length : Int) = first.linesTotal := by
    rw [split, List.length_map]
    exact (congrArg Int.ofNat (List.length_map _)).symm
  rw [whole]
  exact ⟨joined, total, rfl, rfl, rfl⟩

theorem pruneLines_idempotent_nested :
    let plan : Plan := .mk [.anchor .root, .keyed .descendants (some (.name "b")) none false] 0
    let first := pruneLines .default (some plan)
      "\x7b\"a\":[\x7b\"b\":\x7b\"b\":1\x7d,\"c\":1e2\x7d]\x7d\n\n\n[0]\n\x7b"
    let again := pruneLines .default (some plan) first.text
    plan.EndsInName ∧ plan.EveryStep Step.Monotone ∧
      first.text = "\x7b\"a\":[\x7b\"c\":100.0\x7d]\x7d\n[0]\n\x7b" ∧ first.linesPruned = 1 ∧
      again.text = first.text ∧ again.linesTotal = first.linesTotal ∧ again.linesPruned = 0 ∧
      again.keysRemoved = 0 ∧ again.changed = false := by
  intro plan first again
  have named : plan.EndsInName := ⟨[_], _, _, _, _, rfl, rfl, rfl⟩
  have monotone : plan.EveryStep Step.Monotone := by
    simp [plan, Plan.EveryStep, Plan.StepsEvery, Plan.StepEvery, Step.Monotone, Step.anchor]
  have written : first.text = "\x7b\"a\":[\x7b\"c\":100.0\x7d]\x7d\n[0]\n\x7b" ∧
      first.linesPruned = 1 := by decide +kernel
  exact ⟨named, monotone, written.1, written.2,
    pruneLines_idempotent .default plan named monotone _⟩

end PathQuery
