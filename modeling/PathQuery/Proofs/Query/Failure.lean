import PathQuery.Proofs.Prune.Payload
import PathQuery.Proofs.Query.Compile
import PathQuery.Proofs.Query.Overlong

/-!
# Queries that fail

A text that is no query has no plan, and then selects and prunes nothing.  Two
things are passed on to the caller.  An index with more digits than are read
stands in the text wherever it is reported (`compile_eq_overlong`), so a text
without one has a plan or none, and a plan that it has is one that could be put
together from its parts (`compile?_cases`).  A number too long to be written is
met by comparisons of texts only (`find_overlong`).
-/

set_option autoImplicit false

namespace PathQuery

open Grammar Compile

/-- In the text stands an index of so many digits, more than are read. -/
def LongIndex (text : List Char) (count : Nat) : Prop :=
  ∃ negative digits, '[' :: (sign negative ++ digits ++ [']']) <:+: text ∧
    (∀ c ∈ digits, Digit c) ∧ digits.length = count ∧ Numeral.digitLimit < count

theorem LongIndex.of_suffix {text rest : List Char} {count : Nat} (long : LongIndex rest count)
    (suffix : rest <:+ text) : LongIndex text count := by
  obtain ⟨negative, digits, inside, digit, length, limit⟩ := long
  exact ⟨negative, digits, inside.trans suffix.isInfix, digit, length, limit⟩

theorem bind_eq_error {ε α β : Type} {result : Except ε α} {next : α → Except ε β} {e : ε}
    (failed : result >>= next = .error e) :
    result = .error e ∨ ∃ first, result = .ok first ∧ next first = .error e := by
  cases result with
  | error e' => exact .inl (congrArg Except.error (Except.error.inj failed))
  | ok first => exact .inr ⟨first, rfl, failed⟩

theorem map_eq_error {ε α β : Type} {result : Except ε α} {change : α → β} {e : ε}
    (failed : change <$> result = .error e) : result = .error e := by
  cases result with
  | error e' => exact congrArg Except.error (Except.error.inj failed)
  | ok first => cases failed

section Leaves

variable {movement : Movement} {here : Cursor} {count : Nat}

theorem identifier_ne_overlong : identifier movement here ≠ .error (.overlongIndex count) := by
  intro failed
  rw [identifier.eq_def] at failed
  split at failed
  · cases failed
  · dsimp only at failed
    split at failed <;> cases failed
  · cases failed

theorem QuotedKey.read_ne_overlong : QuotedKey.read here ≠ .error (.overlongIndex count) := by
  intro failed
  rw [read_eq_decode] at failed
  generalize here.offset = offset at failed
  generalize here.rest = text at failed
  induction offset, text using decode.induct with
  | case1 => cases failed
  | case2 => cases failed
  | case3 offset c quote =>
    rw [decode, if_neg quote] at failed
    cases failed
  | case4 offset next rest =>
    rw [decode, if_pos rfl, close.eq_def] at failed
    split at failed <;> cases failed
  | case5 offset c next rest quote escape ih =>
    rw [decode, if_neg quote, if_pos escape] at failed
    exact ih (map_eq_error failed)
  | case6 offset c next rest quote escape ih =>
    rw [decode, if_neg quote, if_neg escape] at failed
    exact ih (map_eq_error failed)

theorem index_eq_overlong (failed : index movement here = .error (.overlongIndex count)) :
    LongIndex here.rest count := by
  rw [index] at failed
  split at failed
  · cases failed
  · rename_i negative digits read
    split at failed
    · rename_i limit
      cases failed
      obtain ⟨-, digit, inside⟩ := indexDigits?_eq_some_iff.mp read
      exact ⟨negative, digits, inside.isInfix, digit, rfl, limit⟩
    · cases failed

theorem finish_ne_overlong {last : Step} : finish last here ≠ .error (.overlongIndex count) := by
  intro failed
  rw [finish] at failed
  split at failed
  · cases failed
  · split at failed <;> cases failed

end Leaves

section Inner

variable {inner : Cursor → Except CompileError Parsed} {count : Nat}
  (overlong : ∀ here, inner here = .error (.overlongIndex count) → LongIndex here.rest count)

include overlong

theorem filter_eq_overlong {movement : Movement} {here : Cursor}
    (failed : Compile.filter inner movement here = .error (.overlongIndex count)) :
    LongIndex here.rest count := by
  rw [Compile.filter] at failed
  rcases bind_eq_error failed with inside | ⟨parsed, -, failed⟩
  · have long := overlong _ inside
    split at long
    · exact long.of_suffix (List.drop_suffix 1 here.rest)
    · exact long
  · split at failed <;> cases failed

theorem bracket_eq_overlong {movement : Movement} {here : Cursor}
    (failed : bracket inner movement here = .error (.overlongIndex count)) :
    LongIndex here.rest count := by
  rw [bracket.eq_def] at failed
  split at failed
  · cases failed
  · rcases bind_eq_error failed with unread | ⟨pair, -, failed⟩
    · exact absurd unread QuotedKey.read_ne_overlong
    · cases failed
  · exact (filter_eq_overlong overlong failed).of_suffix (List.drop_suffix 3 here.rest)
  · exact index_eq_overlong failed

theorem dotted_eq_overlong {movement : Movement} {here : Cursor}
    (failed : dotted inner movement here = .error (.overlongIndex count)) :
    LongIndex here.rest count := by
  rw [dotted.eq_def] at failed
  split at failed
  · cases failed
  · cases failed
  · exact bracket_eq_overlong overlong failed
  · exact absurd failed identifier_ne_overlong

theorem accessor?_eq_overlong {here : Cursor}
    (failed : accessor? inner here = .error (.overlongIndex count)) :
    LongIndex here.rest count := by
  have behind : ∀ {movement : Movement} (dots : Nat),
      dotted inner movement (here.advance dots).skipBlanks = .error (.overlongIndex count) →
      LongIndex here.rest count := by
    intro movement dots failed
    have long := dotted_eq_overlong overlong failed
    have blanks := (blanks_skipBlanks (here.advance dots)).follows.suffix
    exact long.of_suffix (blanks.trans (List.drop_suffix dots here.rest))
  rw [accessor?.eq_def] at failed
  split at failed
  · exact behind 2 (map_eq_error failed)
  · exact behind 1 (map_eq_error failed)
  · exact bracket_eq_overlong overlong (map_eq_error failed)
  · cases failed

end Inner

theorem query_eq_overlong {behind : Step → Cursor → Except CompileError Parsed} {count : Nat}
    (overlong : ∀ last here, behind last here = .error (.overlongIndex count) →
      LongIndex here.rest count)
    {here : Cursor} (failed : query behind here = .error (.overlongIndex count)) :
    LongIndex here.rest count := by
  rw [query] at failed
  split at failed
  · cases failed
  · obtain ⟨movement, -, written⟩ := anchor_sound (rfl : anchor here = (_, _))
    rcases bind_eq_error failed with failed | ⟨parsed, -, failed⟩
    · exact (overlong _ _ failed).of_suffix written.follows.suffix
    · split at failed <;> cases failed

theorem accessors_eq_overlong {count : Nat} (fuel : Nat) :
    ∀ last here, accessors fuel last here = .error (.overlongIndex count) →
      LongIndex here.rest count := by
  -- an inner query has the fuel of what stands behind the accessor, so one hypothesis serves both
  induction fuel with
  | zero =>
    intro last here failed
    cases failed
  | succ fuel ih =>
    intro last here failed
    have blanks := (blanks_skipBlanks here).follows.suffix
    rw [accessors] at failed
    rcases bind_eq_error failed with failed | ⟨next, read, failed⟩
    · exact (accessor?_eq_overlong (fun _ => query_eq_overlong ih) failed).of_suffix blanks
    · cases next with
      | none => exact absurd failed finish_ne_overlong
      | some pair =>
        rcases bind_eq_error failed with failed | ⟨later, -, failed⟩
        · exact (ih _ _ failed).of_suffix (accessor?_progress read).1
        · cases failed

/-- An index that has too many digits is reported only where it stands in the text. -/
theorem compile_eq_overlong {text : String} {count : Nat}
    (failed : compile text = .error (.overlongIndex count)) : LongIndex text.toList count := by
  rw [compile] at failed
  rcases bind_eq_error failed with failed | ⟨parsed, -, failed⟩
  · exact query_eq_overlong (accessors_eq_overlong _) failed
  · change (if (stopOf parsed).rest.all Text.isBlank then _ else _) = _ at failed
    split at failed <;> cases failed

theorem compile_long_index {digits : List Char} (digit : ∀ c ∈ digits, Digit c)
    (limit : Numeral.digitLimit < digits.length) :
    compile (String.ofList ('$' :: '[' :: (digits ++ [']']))) =
      .error (.overlongIndex digits.length) := by
  have some' : digits ≠ [] := List.ne_nil_of_length_pos (Nat.zero_lt_of_lt limit)
  let here : Cursor := ⟨1, '[' :: (digits ++ [']'])⟩
  have word : Word ('[' :: (sign false ++ digits ++ [']'])) here ⟨1 + digits.length + 2, []⟩ := by
    refine ⟨?_, ?_⟩
    · simp [here, sign]
    · simp [here, sign]
      omega
  have read : indexDigits? here.rest = some (false, digits) :=
    indexDigits?_eq_some_iff.mpr ⟨some', digit, [], word.1.symm⟩
  have overlong : ∀ inner, accessor? inner here = .error (.overlongIndex digits.length) := by
    intro inner
    change some <$> bracket inner .children here = _
    rw [bracket_index some' digit word, index, read]
    dsimp only
    rw [if_pos limit]
    rfl
  have behind : ∀ (fuel : Nat) (last : Step),
      accessors (fuel + 1) last here = .error (.overlongIndex digits.length) := by
    intro fuel last
    rw [accessors]
    change accessor? (query (accessors fuel)) here >>= _ = _
    rw [overlong]
    rfl
  rw [compile, query, Cursor.start, String.toList_ofList]
  change (accessors _ (.anchor .root) here >>= _) >>= _ = _
  rw [behind]
  rfl

/-! ## Checked parts -/

/-- A step that `Step.make` puts together from its parts, and its comparison and plan likewise.
What it compares with can be written. -/
def Step.Checked : Step → Prop
  | .keyed movement selector comparison negated =>
    Step.make movement (selector.map .selector) none comparison negated =
        .ok (.keyed movement selector comparison negated) ∧
      ∀ asked, comparison = some asked →
        Comparison.make asked.operator.symbol asked.operand = .ok asked ∧
          asked.operand.ShortNumbers
  | .filter movement plan negated =>
    Step.make movement none (some plan) none negated = .ok (.filter movement plan negated) ∧
      Plan.make plan.steps plan.stop = .ok plan

theorem Comparison.make_symbol (comparison : Comparison) :
    Comparison.make comparison.operator.symbol comparison.operand = .ok comparison := by
  rw [Comparison.make, Operator.ofSymbol?_symbol]

theorem Step.checked_keyed (movement : Movement) (selector : Option Selector)
    {comparison : Option Comparison} (negated : Bool)
    (short : ∀ asked, comparison = some asked → asked.operand.ShortNumbers) :
    (Step.keyed movement selector comparison negated).Checked := by
  refine ⟨?_, fun asked same => ⟨asked.make_symbol, short asked same⟩⟩
  cases selector <;> rfl

theorem Step.Checked.shortOperand {step : Step} (checked : step.Checked) : step.ShortOperand := by
  cases step with
  | keyed => exact fun asked same => (checked.2 asked same).2
  | filter => trivial

theorem Plan.make_eq_ok {steps : List Step} (stop : Int) (long : 2 ≤ steps.length)
    {first : Step} (starts : steps.head? = some first) (anchored : first.movement.isAnchor = true) :
    Plan.make steps stop = .ok (.mk steps stop) := by
  rcases steps with _ | ⟨head, _ | ⟨next, rest⟩⟩
  · cases starts
  · simp at long
  · cases starts
    rw [Plan.make, if_pos anchored]

theorem stepEvery_negate {holds : Step → Prop} {step : Step} (every : Plan.StepEvery holds step)
    (negated : holds step → holds step.negate) : Plan.StepEvery holds step.negate := by
  cases step with
  | keyed => exact negated every
  | filter => exact ⟨negated every.1, every.2⟩

theorem Step.Checked.negate {step : Step} (checked : step.Checked) : step.negate.Checked := by
  cases step with
  | keyed => exact checked_keyed _ _ _ checked.shortOperand
  | filter => exact ⟨rfl, checked.2⟩

theorem Grammar.Query.make_concat_eq_ok {here there : Cursor} {front : List Step} {last : Step}
    {compared : Bool} (query : Query here (front ++ [last]) compared there) (stop : Int)
    (final : Step) : Plan.make (front ++ [final]) stop = .ok (.mk (front ++ [final]) stop) := by
  obtain ⟨movement, near, anchored, behind, long⟩ := query_iff.mp query
  obtain ⟨rest, split, -⟩ := behind.exists_rest long
  have goes : movement.isAnchor = true := by cases anchored <;> rfl
  cases front with
  | nil => simp at long
  | cons first front =>
    obtain ⟨rfl, -⟩ := List.cons.inj split
    exact Plan.make_eq_ok stop (by simp) rfl goes

theorem Grammar.Query.make_eq_ok {here there : Cursor} {steps : List Step} {compared : Bool}
    (query : Query here steps compared there) (stop : Int) :
    Plan.make steps stop = .ok (.mk steps stop) := by
  obtain ⟨front, last, rfl⟩ := query.exists_steps
  exact query.make_concat_eq_ok stop last

theorem Grammar.Ending.checked {last final : Step} {here there : Cursor} {compared : Bool}
    (ending : Ending last here final compared there) (checked : Plan.StepEvery Step.Checked last) :
    Plan.StepEvery Step.Checked final := by
  cases ending with
  | plain => exact checked
  | compared _ _ _ read =>
    refine Step.checked_keyed _ _ _ ?_
    rintro asked ⟨⟩
    exact (Json.readable_of_read? read).short
  | unread => exact checked

section Checked

open Plan

mutual

theorem Grammar.Query.checked {here there : Cursor} {steps : List Step} {compared : Bool} :
    Query here steps compared there → ∀ step ∈ steps, StepEvery Step.Checked step
  | .mk anchor accessors ending => by
    have read := accessors.checked
    intro step listed
    rcases List.mem_cons.mp listed with rfl | listed
    · exact Step.checked_keyed _ _ _ nofun
    rcases List.mem_append.mp listed with listed | listed
    · exact read step (List.mem_append_left _ listed)
    · rw [List.mem_singleton.mp listed]
      exact ending.checked (read _ (by simp))

theorem Grammar.Accessors.checked {here there : Cursor} {steps : List Step} :
    Accessors here steps there → ∀ step ∈ steps, StepEvery Step.Checked step
  | .nil => nofun
  | .cons _ accessor accessors => List.forall_mem_cons.mpr ⟨accessor.checked, accessors.checked⟩

theorem Grammar.Accessor.checked {here there : Cursor} {step : Step} :
    Accessor here step there → StepEvery Step.Checked step
  | .named _ _ _ => Step.checked_keyed _ _ _ nofun
  | .dotted _ _ bracket => bracket.checked
  | .bare bracket => bracket.checked

theorem Grammar.Bracket.checked {movement : Movement} {here there : Cursor} {step : Step} :
    Bracket movement here step there → StepEvery Step.Checked step
  | .star _ => Step.checked_keyed _ _ _ nofun
  | .key _ _ => Step.checked_keyed _ _ _ nofun
  | .index _ _ _ _ => Step.checked_keyed _ _ _ nofun
  | .filter _ query _ => ⟨⟨rfl, query.make_eq_ok _⟩, stepsEvery_iff.mpr query.checked⟩
  | .negated _ query _ => by
    have read := query.checked
    refine ⟨⟨rfl, query.make_concat_eq_ok _ _⟩, stepsEvery_iff.mpr fun step listed => ?_⟩
    rcases List.mem_append.mp listed with listed | listed
    · exact read step (List.mem_append_left _ listed)
    · rw [List.mem_singleton.mp listed]
      exact stepEvery_negate (read _ (by simp)) Step.Checked.negate

end

end Checked

theorem checked_of_compile {text : String} {plan : Plan} (compiled : compile text = .ok plan) :
    Plan.make plan.steps plan.stop = .ok plan ∧ plan.EveryStep Step.Checked := by
  cases compile_sound compiled with
  | plain query _ => exact ⟨query.make_eq_ok _, Plan.stepsEvery_iff.mpr query.checked⟩
  | compared query _ _ => exact ⟨query.make_eq_ok _, Plan.stepsEvery_iff.mpr query.checked⟩

theorem shortOperands_of_compile? {text : String} {plan : Option Plan}
    (found : compile? text = .ok plan) : ShortOperands plan := by
  rintro made rfl
  rw [compile?] at found
  split at found
  · rename_i whole compiled
    cases found
    exact (checked_of_compile compiled).2.imp fun _ => Step.Checked.shortOperand
  · cases found
  · cases found

/-! ## With and without a plan -/

theorem withPlan_eq_ok_iff {α : Type} {plan : Option Plan}
    {answer : Option Plan → Except OverlongNumber α} {value : α} :
    withPlan (.ok plan) answer = .ok value ↔ answer plan = .ok value := by
  change (answer plan).mapError _ = _ ↔ _
  cases answer plan <;> simp [Except.mapError]

/-- A call comes to `value`, unless numbers are not `short` and one of them is to be written. -/
def Answered {α : Type} (short : Prop) (result : Except CallError α) (value : α) : Prop :=
  result = .ok value ∨ ¬ short ∧ ∃ e, result = .error (.overlongNumber e)

theorem Agrees.answered {α : Type} {short : Prop} {result : Except OverlongNumber α} {value : α}
    (agrees : Agrees short result value) :
    Answered short (result.mapError .overlongNumber) value := by
  rcases agrees.ok_or_error with rfl | ⟨long, e, rfl⟩
  · exact .inl rfl
  · exact .inr ⟨long, e, rfl⟩

theorem pruneLines_none (settings : Settings) (text : String) :
    pruneLines settings none text =
      ⟨String.ofList (Text.collapseRuns text.toList),
        (Text.splitLines text.toList).length, 0, 0⟩ := by
  have untouched : ∀ line ∈ Text.splitLines text.toList, touches none line = false := by
    intro line _
    rw [touches]
    cases decoded? line <;> rfl
  rw [pruneLines_of_untouched settings none text untouched, Text.joinLines_splitLines]

section Answers

variable {query : String} {plan : Option Plan} (found : compile? query = .ok plan)

include found

theorem find_answered (document : Json) :
    Answered document.ShortNumbers ((Source.text query).find document)
      (select plan document []) := by
  have short := shortOperands_of_compile? found
  rw [Source.find, Source.plan?, found]
  exact ((agrees_select? plan document []).weaken fun holds => ⟨holds, short⟩).answered

theorem prune_answered (document : Json) :
    Answered document.ShortNumbers ((Source.text query).prune document)
      (prune plan document) := by
  have short := shortOperands_of_compile? found
  rw [Source.prune, Source.plan?, found]
  exact ((agrees_prune? plan document).weaken fun holds => ⟨holds, short⟩).answered

theorem pruneLines_eq_ok (settings : Settings) (text : String) :
    (Source.text query).pruneLines settings text = .ok (pruneLines settings plan text) := by
  rw [Source.pruneLines, Source.plan?, found]
  change (pruneLines? settings plan text).mapError _ = _
  rw [(agrees_pruneLines? settings plan text).answers (shortOperands_of_compile? found)]
  rfl

end Answers

/-- A text either has a plan or none, or it reports an index in it that has too many digits.  A
plan passes the checks that its parts are made with, and answers every call but those where a
number of the document is to be written that is too long.  Without a plan nothing is found, nothing
removed, and no more than repeated newlines lost. -/
theorem compile?_cases (query : String) :
    (∃ plan, compile? query = .ok plan ∧
      (∀ document : Json,
        Answered document.ShortNumbers ((Source.text query).find document)
            (select plan document []) ∧
          Answered document.ShortNumbers ((Source.text query).prune document)
            (prune plan document)) ∧
      (∀ settings text, (Source.text query).pruneLines settings text =
        .ok (pruneLines settings plan text)) ∧
      (∀ made, plan = some made →
        Plan.make made.steps made.stop = .ok made ∧ made.EveryStep Step.Checked) ∧
      (plan = none ↔ ∃ position reason, compile query = .error (.malformed position reason)) ∧
      (plan = none → ∀ document settings text,
        (Source.text query).find document = .ok [] ∧
          (Source.text query).prune document = .ok (document, 0) ∧
          (Source.text query).pruneLines settings text =
            .ok ⟨String.ofList (Text.collapseRuns text.toList),
              (Text.splitLines text.toList).length, 0, 0⟩)) ∨
    ∃ digits, LongIndex query.toList digits ∧ compile? query = .error ⟨digits⟩ := by
  cases compiled : compile query with
  | ok plan =>
    have found : compile? query = .ok (some plan) := by rw [compile?, compiled]
    refine .inl ⟨some plan, found,
      fun document => ⟨find_answered found document, prune_answered found document⟩,
      pruneLines_eq_ok found, ?_, ⟨nofun, nofun⟩, nofun⟩
    rintro made ⟨⟩
    exact checked_of_compile compiled
  | error e =>
    cases e with
    | malformed position reason =>
      have found : compile? query = .ok none := by rw [compile?, compiled]
      refine .inl ⟨none, found,
        fun document => ⟨find_answered found document, prune_answered found document⟩,
        pruneLines_eq_ok found, nofun, ⟨fun _ => ⟨position, reason, rfl⟩, fun _ => rfl⟩,
        fun _ document settings text => ?_⟩
      rw [Source.find, Source.prune, Source.plan?, found, pruneLines_eq_ok found settings text,
        pruneLines_none settings text]
      exact ⟨rfl, rfl, rfl⟩
    | overlongIndex digits =>
      exact .inr ⟨digits, compile_eq_overlong compiled, by rw [compile?, compiled]⟩

theorem compile?_ones {count : Nat} (limit : Numeral.digitLimit < count) :
    compile? (String.ofList ('$' :: '[' :: (List.replicate count '1' ++ [']']))) =
      .error ⟨count⟩ := by
  have digit : ∀ c ∈ List.replicate count '1', Digit c := by
    intro c listed
    rw [List.eq_of_mem_replicate listed]
    exact (isDigit_iff '1').mp rfl
  have length : (List.replicate count '1').length = count := List.length_replicate
  rw [compile?, compile_long_index digit (by rwa [length])]
  dsimp only
  rw [length]

/-- It is not so that every text has a plan or none. -/
theorem not_compile?_total : ¬ ∀ query, ∃ plan, compile? query = .ok plan := by
  intro total
  obtain ⟨plan, found⟩ := total (String.ofList ('$' :: '[' :: (List.replicate 4301 '1' ++ [']'])))
  rw [compile?_ones (by decide)] at found
  cases found

end PathQuery
