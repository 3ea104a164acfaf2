import PathQuery.Proofs.Query.QuotedKey
import PathQuery.Proofs.Query.Token

/-!
# Derivations, from the front

What follows a step is one more accessor, or the end of the query; `Behind`
tells a query in this order, in which it is read.  Where a part starts, and
where the one before it ends, is then seen from the next character.
-/

set_option autoImplicit false

namespace PathQuery

open Grammar Compile

/-- What stands behind a step that has been read; the step comes first among the steps. -/
inductive Behind : Step → Cursor → List Step → Bool → Cursor → Prop
  | ending {last final : Step} {here there : Cursor} {compared : Bool} :
      Ending last here final compared there → Behind last here [final] compared there
  | accessor {last step : Step} {here near behind there : Cursor} {steps : List Step}
      {compared : Bool} :
      Blanks here near → Accessor near step behind → Behind step behind steps compared there →
      Behind last here (last :: steps) compared there

theorem Behind.of_accessors {taken : List Step} :
    ∀ {first last final : Step} {front : List Step} {here stop there : Cursor} {compared : Bool},
      Accessors here taken stop → first :: taken = front ++ [last] →
      Ending last stop final compared there →
      Behind first here (front ++ [final]) compared there := by
  induction taken with
  | nil =>
    intro first last final front here stop there compared accessors split ending
    cases accessors
    obtain ⟨rfl, same⟩ := List.append_eq_singleton_iff.mp split.symm |>.resolve_right (by simp)
    cases same
    exact .ending ending
  | cons step rest ih =>
    intro first last final front here stop there compared accessors split ending
    cases accessors with
    | cons blanks accessor accessors =>
      cases front with
      | nil => simp at split
      | cons head front =>
        obtain ⟨rfl, split'⟩ := List.cons.inj split
        exact .accessor blanks accessor (ih accessors split' ending)

theorem Behind.exists_accessors {first : Step} {here there : Cursor} {steps : List Step}
    {compared : Bool} (behind : Behind first here steps compared there) :
    ∃ taken stop front last final, Accessors here taken stop ∧
      first :: taken = front ++ [last] ∧ Ending last stop final compared there ∧
      steps = front ++ [final] := by
  induction behind with
  | @ending last final here there compared ending =>
    exact ⟨[], here, [], last, final, .nil, rfl, ending, rfl⟩
  | @accessor first step here near behind there steps compared blanks accessor _ ih =>
    obtain ⟨taken, stop, front, last, final, accessors, split, ending, rfl⟩ := ih
    refine ⟨step :: taken, stop, first :: front, last, final, ?_, ?_, ending, rfl⟩
    · exact .cons blanks accessor accessors
    · rw [split, List.cons_append]

theorem query_iff {here there : Cursor} {steps : List Step} {compared : Bool} :
    Query here steps compared there ↔ ∃ movement near, Anchor here movement near ∧
      Behind (.anchor movement) near steps compared there ∧ 2 ≤ steps.length := by
  constructor
  · intro query
    cases query with
    | @mk _ behind stop _ movement front last final _ anchor accessors ending =>
      have whole : .anchor movement :: (front ++ [last]) = .anchor movement :: front ++ [last] :=
        rfl
      exact ⟨movement, behind, anchor, .of_accessors accessors whole ending, by simp⟩
  · intro written
    obtain ⟨movement, near, anchor, behind, size⟩ := written
    obtain ⟨taken, stop, front, last, final, accessors, split, ending, rfl⟩ :=
      behind.exists_accessors
    cases front with
    | nil => simp at size
    | cons first front =>
      obtain ⟨rfl, rfl⟩ := List.cons.inj split
      exact .mk anchor accessors ending

def Opens (text : List Char) : Prop :=
  ∃ c rest, text = c :: rest ∧ (c = '.' ∨ c = '[')

theorem Grammar.Word.opens {here there : Cursor} {c : Char} {word : List Char}
    (between : Word (c :: word) here there) (either : c = '.' ∨ c = '[') : Opens here.rest :=
  ⟨c, word ++ there.rest, between.1, either⟩

theorem Grammar.Dots.opens {here there : Cursor} {movement : Movement}
    (dots : Dots here movement there) : Opens here.rest := by
  cases dots with
  | one word => exact word.opens (.inl rfl)
  | two word => exact word.opens (.inl rfl)

theorem Grammar.Bracket.exists_rest {movement : Movement} {here there : Cursor} {step : Step}
    (bracket : Bracket movement here step there) : ∃ rest, here.rest = '[' :: rest := by
  cases bracket with
  | star word => exact ⟨_, word.1⟩
  | key _ word => exact ⟨_, word.1⟩
  | index _ _ _ word => exact ⟨_, word.1⟩
  | filter word _ _ => exact ⟨_, word.1⟩
  | negated word _ _ => exact ⟨_, word.1⟩

theorem Grammar.Accessor.opens {here there : Cursor} {step : Step}
    (accessor : Accessor here step there) : Opens here.rest := by
  cases accessor with
  | named dots _ _ => exact dots.opens
  | dotted dots _ _ => exact dots.opens
  | bare bracket =>
    obtain ⟨rest, text⟩ := bracket.exists_rest
    exact ⟨'[', rest, text, .inr rfl⟩

theorem Opens.fresh {text : List Char} (opens : Opens text) : Fresh text := by
  obtain ⟨c, rest, rfl, either⟩ := opens
  intro first same
  cases same
  rcases either with rfl | rfl <;> decide

def Outside (text : List Char) : Prop :=
  ∀ c, text.head? = some c →
    Text.isBlank c = false ∧ isWordPart c = false ∧ c ≠ '.' ∧ c ≠ '['

theorem outside_nil : Outside [] := nofun

theorem outside_close (rest : List Char) : Outside (')' :: rest) := by
  intro c same
  cases same
  decide

theorem Operator.exists_symbol_eq_cons (op : Operator) :
    ∃ c rest, op.symbol.toList = c :: rest ∧ c ≠ ')' ∧ Outside [c] := by
  cases op <;> exact ⟨_, _, rfl, by decide, fun _ same => by cases same; decide⟩

theorem Grammar.Cuts.exists_head {text : List Char} {op : Operator} {literal : List Char}
    (cuts : Cuts text op literal) : ∃ c rest, text = c :: rest ∧ c ≠ ')' ∧ Outside [c] := by
  obtain ⟨c, symbol, written, close, outside⟩ := op.exists_symbol_eq_cons
  obtain ⟨-, -, after, rfl⟩ := cuts
  rw [written]
  exact ⟨c, _, rfl, close, outside⟩

theorem Grammar.Cuts.outside {text : List Char} {op : Operator} {literal : List Char}
    (cuts : Cuts text op literal) : Outside text := by
  obtain ⟨c, rest, rfl, -, outside⟩ := cuts.exists_head
  exact outside

/-! ## The end of a query -/

/-- Where no comparison ends a query, the text ends or a filter does. -/
def Closed (compared : Bool) (there : Cursor) : Prop :=
  compared = true ∨ there.rest = [] ∨ [')', ']'] <+: there.rest

theorem Grammar.Word.closed {compared : Bool} {there stop : Cursor}
    (closing : Word [')', ']'] there stop) : Closed compared there :=
  .inr (.inr ⟨stop.rest, closing.1.symm⟩)

theorem Closed.outside {there : Cursor} (closed : Closed false there) :
    Outside there.rest ∧ comparison? there.rest = none := by
  have bare : there.rest = [] ∨ ∃ rest, there.rest = ')' :: rest := by
    rcases closed with compared | text | close
    · cases compared
    · exact .inl text
    · obtain ⟨rest, text⟩ := close
      exact .inr ⟨']' :: rest, text.symm⟩
  have none' : comparison? there.rest = none := by
    cases found : comparison? there.rest with
    | none => rfl
    | some pair =>
      have compares : Compares there.rest pair.1 pair.2 := comparison?_eq_some_iff.mp found
      obtain ⟨c, rest, text, close, -⟩ := compares.1.exists_head
      rcases bare with nothing | ⟨more, text'⟩
      · rw [nothing] at text
        cases text
      · rw [text'] at text
        exact absurd (List.cons.inj text).1.symm close
  refine ⟨?_, none'⟩
  rcases bare with nothing | ⟨more, text⟩
  · rw [nothing]
    exact outside_nil
  · rw [text]
    exact outside_close more

theorem Outside.fresh {text : List Char} (outside : Outside text) : Fresh text :=
  fun c first => (outside c first).1

theorem finish_sound {last : Step} {here : Cursor} {parsed : Parsed}
    (found : finish last here.skipBlanks = .ok parsed) :
    ∃ final, parsed.steps = [final] ∧ Ending last here final parsed.compared parsed.rest := by
  have blanks := blanks_skipBlanks here
  rw [finish] at found
  split at found
  · cases found
    exact ⟨last, rfl, .plain blanks⟩
  · rename_i op literal read
    have compares := comparison?_eq_some_iff.mp read
    obtain ⟨-, -, after, text⟩ := compares.1
    rw [List.append_assoc] at text
    have word := word_advance text.symm
    rw [List.length_append, String.length_toList] at word
    cases last with
    | filter movement plan negated => cases found
    | keyed movement selector comparison negated =>
      cases found
      refine ⟨_, rfl, ?_⟩
      cases operand : Json.read? (String.ofList literal) with
      | none => exact .unread blanks compares word operand
      | some value => exact .compared blanks compares word operand

theorem finish_complete {last final : Step} {here there : Cursor} {compared : Bool}
    (ending : Ending last here final compared there) (closed : Closed compared there) :
    Outside here.skipBlanks.rest ∧
      finish last here.skipBlanks = .ok ⟨[final], compared, there⟩ := by
  cases ending with
  | plain blanks =>
    obtain ⟨outside, none'⟩ := closed.outside
    rw [skipBlanks_eq blanks outside.fresh, finish, none']
    exact ⟨outside, rfl⟩
  | compared blanks compares word operand =>
    have outside := compares.1.outside
    rw [skipBlanks_eq blanks outside.fresh, finish, comparison?_eq_some_iff.mpr compares]
    refine ⟨outside, ?_⟩
    simp only [operand, word.eq_advance, List.length_append, String.length_toList]
  | unread blanks compares word operand =>
    have outside := compares.1.outside
    rw [skipBlanks_eq blanks outside.fresh, finish, comparison?_eq_some_iff.mpr compares]
    refine ⟨outside, ?_⟩
    simp only [operand, word.eq_advance, List.length_append, String.length_toList]

theorem Grammar.Blanks.edge {here near : Cursor} (between : Blanks here near)
    (edge : ∀ c, near.rest.head? = some c → isWordPart c = false) :
    ∀ c, here.rest.head? = some c → isWordPart c = false := by
  intro c first
  rcases between.head first with blank | later
  · by_contra part
    rw [isBlank_of_isWordPart (by simpa using part)] at blank
    cases blank
  · exact edge c later

theorem Behind.edge {last : Step} {here there : Cursor} {steps : List Step} {compared : Bool}
    (behind : Behind last here steps compared there) (closed : Closed compared there) :
    ∀ c, here.rest.head? = some c → isWordPart c = false := by
  cases behind with
  | ending ending =>
    have outside := (finish_complete ending closed).1
    exact (blanks_skipBlanks here).edge fun c first => (outside c first).2.1
  | accessor blanks accessor _ =>
    obtain ⟨c, rest, text, either⟩ := accessor.opens
    apply blanks.edge
    intro d first
    rw [text] at first
    cases first
    rcases either with rfl | rfl <;> decide

theorem Behind.exists_head {last : Step} {here there : Cursor} {steps : List Step}
    {compared : Bool} (behind : Behind last here steps compared there)
    (size : 2 ≤ steps.length) :
    ∃ c rest, here.rest = c :: rest ∧ (Text.isBlank c = true ∨ c = '.' ∨ c = '[') := by
  cases behind with
  | ending ending => simp at size
  | accessor blanks accessor _ =>
    obtain ⟨c, rest, text, either⟩ := accessor.opens
    cases whole : here.rest with
    | nil =>
      have length := blanks.follows.suffix.length_le
      rw [whole, text] at length
      simp at length
    | cons d more =>
      refine ⟨d, more, rfl, ?_⟩
      have first : here.rest.head? = some d := by rw [whole, List.head?_cons]
      rcases blanks.head first with blank | later
      · exact .inl blank
      · rw [text] at later
        cases later
        exact .inr either

theorem anchor_complete {here near there : Cursor} {movement : Movement} {steps : List Step}
    {compared : Bool} (written : Anchor here movement near)
    (behind : Behind (.anchor movement) near steps compared there) (size : 2 ≤ steps.length) :
    here.rest ≠ [] ∧ here.rest.head? ≠ some '!' ∧ anchor here = (.anchor movement, near) := by
  cases written with
  | root word =>
    rw [word.eq_advance, anchor, word.1]
    exact ⟨nofun, by simp, rfl⟩
  | current word =>
    rw [word.eq_advance, anchor, word.1]
    exact ⟨nofun, by simp, rfl⟩
  | implicit =>
    obtain ⟨c, rest, text, start⟩ := behind.exists_head size
    have other : ∀ d, Text.isBlank d = false → d ≠ '.' → d ≠ '[' → c ≠ d := by
      intro d filled dot bracket same
      subst same
      rcases start with blank | dot' | bracket'
      · rw [filled] at blank
        cases blank
      · exact dot dot'
      · exact bracket bracket'
    have root : c ≠ '$' := other '$' (by decide) (by decide) (by decide)
    have current : c ≠ '@' := other '@' (by decide) (by decide) (by decide)
    have mark : c ≠ '!' := other '!' (by decide) (by decide) (by decide)
    rw [anchor, text]
    exact ⟨List.cons_ne_nil _ _, by simpa using mark, by simp [root, current]⟩

theorem Grammar.Query.head_ne {here there : Cursor} {steps : List Step} {compared : Bool}
    (query : Query here steps compared there) : here.rest.head? ≠ some '!' := by
  obtain ⟨movement, near, anchor, behind, size⟩ := query_iff.mp query
  exact (anchor_complete anchor behind size).2.1

theorem Grammar.Bracket.length_lt {movement : Movement} {here there : Cursor} {step : Step}
    (bracket : Bracket movement here step there) : there.rest.length < here.rest.length := by
  cases bracket with
  | star word => exact word.length_lt
  | key _ word => exact word.length_lt
  | index _ _ _ word => exact word.length_lt
  | filter opening query closing =>
    have inside := (query.follows.trans closing.follows).suffix
    exact Nat.lt_of_le_of_lt inside.length_le opening.length_lt
  | negated opening query closing =>
    have inside := (query.follows.trans closing.follows).suffix
    exact Nat.lt_of_le_of_lt inside.length_le opening.length_lt

theorem Grammar.Dots.length_lt {here there : Cursor} {movement : Movement}
    (dots : Dots here movement there) : there.rest.length < here.rest.length := by
  cases dots with
  | one word => exact word.length_lt
  | two word => exact word.length_lt

theorem Grammar.Accessor.length_lt {here there : Cursor} {step : Step}
    (accessor : Accessor here step there) : there.rest.length < here.rest.length := by
  cases accessor with
  | named dots blanks identifier =>
    have first := dots.length_lt
    have second := blanks.follows.suffix.length_le
    have third := identifier.follows.suffix.length_le
    omega
  | dotted dots blanks bracket =>
    have first := dots.length_lt
    have second := blanks.follows.suffix.length_le
    have third := bracket.length_lt
    omega
  | bare bracket => exact bracket.length_lt

theorem Grammar.ShortRuns.suffix {text rest : List Char} (short : ShortRuns text)
    (suffix : rest <:+ text) : ShortRuns rest :=
  fun digits run => short digits (run.trans suffix.isInfix)

end PathQuery
