import PathQuery.Proofs.Query.Front

/-!
# Queries without filters

A query that holds no filter is read in a filter as it is read by itself, also
with a comparison behind it, which becomes that of its last step
(`Enclosed.of_keyed`).  What stands in its quoted keys does not matter, though
they may look like the end of a comparison.
-/

set_option autoImplicit false

namespace PathQuery

open Grammar Compile

namespace Json.Token

theorem scalar?_equals (rest : List Char) : scalar? ('=' :: rest) = none := by
  have numeral : Numeral.read? ('=' :: rest) = none := rfl
  have other : ∀ text : List Char, text.head? ≠ some '=' → '=' :: rest ≠ text := by
    rintro text first rfl
    exact first rfl
  rw [scalar?, if_neg (other _ (by decide)), if_neg (other _ (by decide)),
    if_neg (other _ (by decide)), if_neg (other _ (by decide)), if_neg (other _ (by decide)),
    if_neg (other _ (by decide)), numeral]
  rfl

theorem scan_word_equals (tokens : List Token) (text : List Char) :
    ∀ letters : List Char, letters.getLast? = some '=' →
      (text.foldlM Lexer.step ⟨tokens, .word letters⟩).bind Lexer.finish = none := by
  have unread : ∀ letters : List Char, letters.getLast? = some '=' →
      scalar? letters.reverse = none := by
    intro letters first
    obtain ⟨rest, backwards⟩ := List.head?_eq_some_iff.mp (List.head?_reverse.trans first)
    rw [backwards, scalar?_equals]
  induction text with
  | nil =>
    intro letters first
    change (scalar? letters.reverse).map _ = none
    rw [unread letters first]
    rfl
  | cons c text ih =>
    intro letters first
    rw [List.foldlM_cons, Lexer.step]
    split
    · rw [unread letters first]
      rfl
    · have some' : letters ≠ [] := by
        rintro rfl
        cases first
      exact ih (c :: letters) (by rw [List.getLast?_cons_of_ne_nil some', first])

end Json.Token

theorem Json.exists_head_of_read? {literal : List Char} {value : Json}
    (found : Json.read? (String.ofList literal) = some value) :
    ∃ c rest, literal = c :: rest ∧ c ≠ '=' := by
  cases literal with
  | nil => cases found
  | cons c rest =>
    refine ⟨c, rest, rfl, ?_⟩
    rintro rfl
    rw [Json.read?, String.toList_ofList, Token.scan?, List.foldlM_cons] at found
    have nothing := Token.scan_word_equals [] rest ['='] rfl
    change ((List.foldlM Token.Lexer.step ⟨[], .word ['=']⟩ rest).bind _).bind _ = _ at found
    rw [nothing] at found
    cases found

theorem Grammar.compares_of_read? {op : Operator} {literal : List Char} {operand : Json}
    (line : '\n' ∉ literal) (free : ¬ [')', ']'] <:+: literal)
    (found : Json.read? (String.ofList literal) = some operand) :
    Compares (op.symbol.toList ++ literal ++ [')', ']']) op literal := by
  obtain ⟨c, rest, rfl, equals⟩ := Json.exists_head_of_read? found
  have cuts : Cuts (op.symbol.toList ++ (c :: rest) ++ [')', ']']) op (c :: rest) :=
    ⟨List.cons_ne_nil _ _, line, List.prefix_refl _⟩
  refine ⟨cuts, fun other found' cuts' => ?_⟩
  rcases Nat.lt_trichotomy other.symbol.length op.symbol.length with shorter | same | longer
  · exact .inl shorter
  · obtain rfl : other = op := cuts'.eq_of_length cuts same
    refine .inr ⟨rfl, ?_⟩
    have inside := cuts'.2.2
    rw [List.append_assoc, List.append_assoc, List.prefix_append_right_inj] at inside
    rcases eq_or_prefix_of_prefix_close inside with whole | before
    · rw [whole]
    · have close : [')', ']'] <:+: found' ++ [')', ']'] := (List.suffix_append _ _).isInfix
      exact absurd (close.trans before.isInfix) free
  · have start := cuts.isPrefix_of_length_le cuts' (Nat.le_of_lt longer)
    have different : op ≠ other := by
      rintro rfl
      exact Nat.lt_irrefl _ longer
    have symbol := (Operator.symbol_eq_of_isPrefix start different).1
    have there := cuts'.isPrefix
    rw [symbol, List.append_assoc, List.prefix_append_right_inj, List.cons_append,
      List.cons_prefix_cons] at there
    exact absurd there.1.symm equals

/-- What may stand between the accessors and the end of a filter. -/
inductive Grammar.Tail : String → Option Comparison → Prop
  | none : Tail "" none
  | compared {op : Operator} {literal : String} {operand : Json} :
      '\n' ∉ literal.toList → ¬ [')', ']'] <:+: literal.toList →
      Json.read? literal = some operand → Tail (op.symbol ++ literal) (some ⟨op, operand⟩)

def Step.isKeyed : Step → Bool
  | .keyed .. => true
  | .filter .. => false

def Step.compare (test : Option Comparison) : Step → Step
  | .keyed movement selector comparison negated =>
    .keyed movement selector (test.or comparison) negated
  | .filter movement plan negated => .filter movement plan negated

theorem Step.shift_of_isKeyed {step : Step} (keyed : step.isKeyed = true) (distance : Nat) :
    step.shift distance = step := by
  cases step with
  | keyed => rfl
  | filter => cases keyed

theorem Grammar.Tail.ending {tail : String} {test : Option Comparison} (written : Tail tail test)
    {last : Step} (keyed : last.isKeyed = true) {here : Cursor} {offset : Nat}
    (blanks : Blanks here ⟨offset, tail.toList ++ [')', ']']⟩) :
    Ending last here (last.compare test) test.isSome ⟨offset + tail.length, [')', ']']⟩ := by
  cases last with
  | filter => cases keyed
  | keyed movement selector comparison negated =>
    cases written with
    | none => exact .plain blanks
    | @compared op literal operand line free found =>
      have word : Word (op.symbol.toList ++ literal.toList)
          ⟨offset, (op.symbol ++ literal).toList ++ [')', ']']⟩
          ⟨offset + (op.symbol ++ literal).length, [')', ']']⟩ := by
        constructor
        · rw [String.toList_append]
        · rw [List.length_append, String.length_toList, String.length_toList, String.length_append]
      have same : String.ofList literal.toList = literal := String.ofList_toList
      refine .compared blanks ?_ word (same.symm ▸ found)
      rw [String.toList_append]
      exact compares_of_read? line free (same.symm ▸ found)

theorem head?_of_accessors {fuel : Nat} {last : Step} {here : Cursor} {parsed : Parsed}
    (found : accessors fuel last here = .ok parsed) (plain : parsed.compared = false) :
    parsed.steps.head? = some last := by
  have behind := accessors_sound _ _ _ _ found
  rw [plain] at behind
  generalize parsed.steps = steps at behind ⊢
  cases behind with
  | ending ending =>
    cases ending with
    | plain => rfl
  | accessor => rfl

section Keyed

variable {tail : String} {test : Option Comparison} (written : Tail tail test)

include written

/-- Accessors without filters, wherever they stand, with a comparison behind the last. -/
theorem accessors_keyed (distance stop : Nat) (fuel : Nat) :
    ∀ size last here parsed, accessors fuel last here = .ok parsed → parsed.compared = false →
      parsed.rest = ⟨stop, []⟩ → (∀ step ∈ parsed.steps, step.isKeyed = true) →
      here.rest.length + (tail.length + 2) < size →
      ∃ front final, parsed.steps = front ++ [final] ∧
        accessors size last (here.place distance (tail.toList ++ [')', ']'])) =
          .ok ⟨front ++ [final.compare test], test.isSome,
            ⟨stop + distance + tail.length, [')', ']']⟩⟩ := by
  -- no query is read in an accessor, so only the accessors themselves are gone through
  have closing : Closed test.isSome ⟨stop + distance + tail.length, [')', ']']⟩ :=
    .inr (.inr (List.prefix_refl _))
  induction fuel with
  | zero =>
    intro size last here parsed found
    cases found
  | succ fuel ih =>
    intro size last here parsed found plain ends keyed room
    obtain ⟨size, rfl⟩ := Nat.exists_eq_add_one_of_ne_zero (Nat.ne_zero_of_lt room)
    have blanks := blanks_skipBlanks here
    rcases accessors_eq_ok_iff.mp found with ⟨-, found⟩ | ⟨step, there, later, read, behind, rfl⟩
    · obtain ⟨final, only, ending⟩ := finish_sound found
      rw [plain, ends] at ending
      cases ending with
      | plain blanks =>
        refine ⟨[], last, only, ?_⟩
        have last' : last.isKeyed = true := by
          rw [only] at keyed
          exact keyed last (List.mem_singleton_self _)
        have placed : Blanks (here.place distance (tail.toList ++ [')', ']']))
            ⟨stop + distance, tail.toList ++ [')', ']']⟩ := blanks.place
        exact accessors_of_ending (Nat.zero_lt_succ size) (written.ending last' placed) closing
    · obtain ⟨further, shorter⟩ := accessor?_progress read
      have inner : ∀ step ∈ later.steps, step.isKeyed = true :=
        fun step listed => keyed step (List.mem_cons_of_mem _ listed)
      obtain ⟨front, final, split, rest⟩ :=
        ih size step there later behind plain ends inner (by omega)
      refine ⟨last :: front, final, by rw [split, List.cons_append], ?_⟩
      have first : step.isKeyed = true := by
        have listed := List.mem_of_mem_head? (head?_of_accessors behind plain)
        exact inner step listed
      have edge := (accessors_sound size _ _ _ rest).edge closing
      rcases accessor?_place_cases read with ⟨movement, near, _, -, -, filter⟩ | alone
      · obtain ⟨_, -, -, rfl⟩ := exists_read_of_filter filter
        cases first
      · have accessor := alone (query (accessors size)) distance _ edge
        rw [Step.shift_of_isKeyed first] at accessor
        exact accessors_of_accessor blanks.place accessor rest

theorem Enclosed.of_keyed {text : String} {plan : Plan} (compiled : compile text = .ok plan)
    (uncompared : endsCompared text = false) (keyed : ∀ step ∈ plan.steps, step.isKeyed = true) :
    ∃ front final, plan.steps = front ++ [final] ∧
      Enclosed (text ++ tail) (front ++ [final.compare test]) := by
  obtain ⟨steps, whole, rfl⟩ := exists_read_of_compile compiled uncompared
  obtain ⟨filled, first, near, anchored, read, long⟩ := query_eq_ok_iff.mp whole
  obtain ⟨movement, rfl, anchor⟩ := anchor_sound anchored
  have length : near.rest.length ≤ text.length := by
    have inside := anchor.follows.suffix.length_le
    rwa [Cursor.start, String.length_toList] at inside
  obtain ⟨front, final, rfl, behind⟩ :=
    accessors_keyed written 3 text.length _ (text.length + tail.length + 3) _ _ _ read rfl rfl
      keyed (by omega)
  refine ⟨front, final, rfl, text.length + tail.length + 3, test.isSome, ?_⟩
  have start : (Cursor.start text).place 3 (tail.toList ++ [')', ']']) =
      ⟨3, (text ++ tail).toList ++ [')', ']']⟩ := by
    simp [Cursor.place, Cursor.start]
  have stop : text.length + 3 + tail.length = 3 + (text ++ tail).length := by
    rw [String.length_append]
    omega
  rw [← start, ← stop]
  refine query_eq_ok_iff.mpr ⟨Cursor.place_rest_ne_nil filled, _, _, anchor_place anchored filled,
    behind, ?_⟩
  rwa [List.length_append] at long ⊢

end Keyed

end PathQuery
