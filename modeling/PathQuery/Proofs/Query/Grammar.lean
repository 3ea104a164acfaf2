import PathQuery.Query.Compile

/-!
# The grammar of queries

What a query may look like and which plan it stands for, told by how its text
is put together and not by how it is read.  A relation between two cursors says
what stands between them, so the grammar speaks of places in the query as plans
do.

A query is an anchor, accessors and perhaps a comparison; an accessor may hold a
query, in a filter.  The letters and digits are those of ASCII, and the blanks
are those of `Text.isBlank`.
-/

set_option autoImplicit false

namespace PathQuery.Grammar

/-- From one cursor to the other stands this word. -/
def Word (word : List Char) (here there : Cursor) : Prop :=
  here.rest = word ++ there.rest ∧ there.offset = here.offset + word.length

def Blanks (here there : Cursor) : Prop :=
  ∃ blanks, (∀ c ∈ blanks, Text.isBlank c = true) ∧ Word blanks here there

def Letter (c : Char) : Prop :=
  ('A' ≤ c ∧ c ≤ 'Z') ∨ ('a' ≤ c ∧ c ≤ 'z') ∨ c = '_'

def Digit (c : Char) : Prop := '0' ≤ c ∧ c ≤ '9'

inductive Anchor : Cursor → Movement → Cursor → Prop
  | root {here there : Cursor} : Word ['$'] here there → Anchor here .root there
  | current {here there : Cursor} : Word ['@'] here there → Anchor here .current there
  | implicit {here : Cursor} : Anchor here .current here

inductive Dots : Cursor → Movement → Cursor → Prop
  | one {here there : Cursor} : Word ['.'] here there → Dots here .children there
  | two {here there : Cursor} : Word ['.', '.'] here there → Dots here .descendants there

inductive Identifier : Cursor → Selector → Cursor → Prop
  | star {here there : Cursor} : Word ['*'] here there → Identifier here .wildcard there
  | name {here there : Cursor} {first : Char} {more : List Char} :
      Letter first → (∀ c ∈ more, Letter c ∨ Digit c) → Word (first :: more) here there →
      Identifier here (.name (String.ofList (first :: more))) there

/-- What is written between the quotes, and the key it means.  The quote and the backslash
are escaped by a backslash, which elsewhere is an ordinary character. -/
inductive Spells : List Char → List Char → Prop
  | nil : Spells [] []
  | escaped {c : Char} {body key : List Char} :
      c = '\'' ∨ c = '\\' → Spells body key → Spells ('\\' :: c :: body) (c :: key)
  | plain {c : Char} {body key : List Char} :
      c ≠ '\'' → c ≠ '\\' → Spells body key → Spells (c :: body) (c :: key)
  | backslash {c : Char} {body key : List Char} :
      c ≠ '\'' → c ≠ '\\' → Spells (c :: body) key → Spells ('\\' :: c :: body) ('\\' :: key)

def sign : Bool → List Char
  | true => ['-']
  | false => []

def indexOf (negative : Bool) (digits : List Char) : Int :=
  let size : Int := Nat.ofDigitChars 10 digits 0
  if negative then -size else size

/-- A text starts with an operator and a literal, which `)]` ends on the same line. -/
def Cuts (text : List Char) (op : Operator) (literal : List Char) : Prop :=
  literal ≠ [] ∧ '\n' ∉ literal ∧ op.symbol.toList ++ literal ++ [')', ']'] <+: text

/-- The cut with the longest operator and, with that operator, the shortest literal. -/
def Compares (text : List Char) (op : Operator) (literal : List Char) : Prop :=
  Cuts text op literal ∧ ∀ other found, Cuts text other found →
    other.symbol.length < op.symbol.length ∨ other = op ∧ literal.length ≤ found.length

/-- How a query ends behind its last step, and what becomes of that step.  Only a step with a
selector takes a comparison; a literal that is not JSON leaves the step as it is. -/
inductive Ending : Step → Cursor → Step → Bool → Cursor → Prop
  | plain {last : Step} {here there : Cursor} : Blanks here there → Ending last here last false there
  | compared {movement : Movement} {selector : Option Selector} {before : Option Comparison}
      {negated : Bool} {here near there : Cursor} {op : Operator} {literal : List Char}
      {operand : Json} :
      Blanks here near → Compares near.rest op literal →
      Word (op.symbol.toList ++ literal) near there →
      Json.read? (String.ofList literal) = some operand →
      Ending (.keyed movement selector before negated) here
        (.keyed movement selector (some ⟨op, operand⟩) negated) true there
  | unread {movement : Movement} {selector : Option Selector} {before : Option Comparison}
      {negated : Bool} {here near there : Cursor} {op : Operator} {literal : List Char} :
      Blanks here near → Compares near.rest op literal →
      Word (op.symbol.toList ++ literal) near there →
      Json.read? (String.ofList literal) = none →
      Ending (.keyed movement selector before negated) here
        (.keyed movement selector before negated) true there

/-! ## Queries -/

mutual

inductive Query : Cursor → List Step → Bool → Cursor → Prop
  | mk {here behind stop there : Cursor} {movement : Movement} {front : List Step}
      {last final : Step} {compared : Bool} :
      Anchor here movement behind → Accessors behind (front ++ [last]) stop →
      Ending last stop final compared there →
      Query here (.anchor movement :: (front ++ [final])) compared there

inductive Accessors : Cursor → List Step → Cursor → Prop
  | nil {here : Cursor} : Accessors here [] here
  | cons {here near behind there : Cursor} {step : Step} {steps : List Step} :
      Blanks here near → Accessor near step behind → Accessors behind steps there →
      Accessors here (step :: steps) there

inductive Accessor : Cursor → Step → Cursor → Prop
  | named {here behind near there : Cursor} {movement : Movement} {selector : Selector} :
      Dots here movement behind → Blanks behind near → Identifier near selector there →
      Accessor here (.keyed movement (some selector) none false) there
  | dotted {here behind near there : Cursor} {movement : Movement} {step : Step} :
      Dots here movement behind → Blanks behind near → Bracket movement near step there →
      Accessor here step there
  | bare {here there : Cursor} {step : Step} :
      Bracket .children here step there → Accessor here step there

inductive Bracket : Movement → Cursor → Step → Cursor → Prop
  | star {movement : Movement} {here there : Cursor} : Word ['[', '*', ']'] here there →
      Bracket movement here (.keyed movement (some .wildcard) none false) there
  | key {movement : Movement} {here there : Cursor} {body key : List Char} : Spells body key →
      Word ('[' :: '\'' :: (body ++ ['\'', ']'])) here there →
      Bracket movement here (.keyed movement (some (.name (String.ofList key))) none false) there
  | index {movement : Movement} {here there : Cursor} {digits : List Char} (negative : Bool) :
      digits ≠ [] → (∀ c ∈ digits, Digit c) →
      Word ('[' :: (sign negative ++ digits ++ [']'])) here there →
      Bracket movement here
        (.keyed movement (some (.index (indexOf negative digits))) none false) there
  | filter {movement : Movement} {here inner stop there : Cursor} {steps : List Step}
      {compared : Bool} :
      Word ['[', '?', '('] here inner → Query inner steps compared stop →
      Word [')', ']'] stop there →
      Bracket movement here (.filter movement (.mk steps stop.offset) false) there
  | negated {movement : Movement} {here inner stop there : Cursor} {front : List Step}
      {last : Step} {compared : Bool} :
      Word ['[', '?', '(', '!'] here inner → Query inner (front ++ [last]) compared stop →
      Word [')', ']'] stop there →
      Bracket movement here
        (.filter movement (.mk (front ++ [last.negate]) stop.offset) false) there

end

/-- The plan of a whole text.  Behind a comparison stands `)]`, and then only blanks. -/
inductive Derives (text : String) : Plan → Prop
  | plain {steps : List Step} {stop : Cursor} :
      Query (.start text) steps false stop → stop.rest = [] →
      Derives text (.mk steps stop.offset)
  | compared {steps : List Step} {near stop : Cursor} :
      Query (.start text) steps true near → Word [')', ']'] near stop →
      (∀ c ∈ stop.rest, Text.isBlank c = true) → Derives text (.mk steps stop.offset)

/-- Every run of digits is short enough to be read as an index. -/
def ShortRuns (text : List Char) : Prop :=
  ∀ digits, digits <:+: text → (∀ c ∈ digits, Digit c) → digits.length ≤ Numeral.digitLimit

def Follows (here there : Cursor) : Prop := ∃ word, Word word here there

theorem Word.eq_advance {word : List Char} {here there : Cursor} (between : Word word here there) :
    there = here.advance word.length := by
  obtain ⟨text, offset⟩ := between
  rw [Cursor.advance, text, List.drop_left, ← offset]

theorem Word.append {word more : List Char} {here near there : Cursor}
    (first : Word word here near) (second : Word more near there) :
    Word (word ++ more) here there := by
  obtain ⟨text, offset⟩ := first
  obtain ⟨text', offset'⟩ := second
  constructor
  · rw [text, text', List.append_assoc]
  · rw [offset', offset, List.length_append, Nat.add_assoc]

theorem Word.behind {word more : List Char} {here there : Cursor}
    (between : Word (word ++ more) here there) : Word more (here.advance word.length) there := by
  obtain ⟨text, offset⟩ := between
  constructor
  · rw [Cursor.advance, text, List.append_assoc, List.drop_left]
  · rw [offset, List.length_append, Cursor.advance, Nat.add_assoc]

theorem word_advance {here : Cursor} {word rest : List Char} (text : here.rest = word ++ rest) :
    Word word here (here.advance word.length) := by
  constructor
  · rw [Cursor.advance, text, List.drop_left]
  · rfl

theorem Word.suffix {word : List Char} {here there : Cursor} (between : Word word here there) :
    there.rest <:+ here.rest :=
  ⟨word, between.1.symm⟩

theorem Word.length_lt {c : Char} {word : List Char} {here there : Cursor}
    (between : Word (c :: word) here there) : there.rest.length < here.rest.length := by
  rw [between.1, List.length_append, List.length_cons]
  omega

theorem Word.follows {word : List Char} {here there : Cursor} (between : Word word here there) :
    Follows here there :=
  ⟨word, between⟩

theorem Follows.refl (here : Cursor) : Follows here here := ⟨[], rfl, rfl⟩

theorem Follows.trans {here near there : Cursor} (first : Follows here near)
    (second : Follows near there) : Follows here there := by
  obtain ⟨word, between⟩ := first
  obtain ⟨more, between'⟩ := second
  exact ⟨word ++ more, between.append between'⟩

theorem Follows.suffix {here there : Cursor} (follows : Follows here there) :
    there.rest <:+ here.rest := by
  obtain ⟨word, between⟩ := follows
  exact between.suffix

theorem Follows.offset_add_length {here there : Cursor} (follows : Follows here there) :
    there.offset + there.rest.length = here.offset + here.rest.length := by
  obtain ⟨word, text, offset⟩ := follows
  rw [offset, text, List.length_append, Nat.add_assoc]

theorem Blanks.trans {here near there : Cursor} (first : Blanks here near)
    (second : Blanks near there) : Blanks here there := by
  obtain ⟨blanks, blank, word⟩ := first
  obtain ⟨more, blank', word'⟩ := second
  refine ⟨blanks ++ more, ?_, word.append word'⟩
  intro c listed
  exact (List.mem_append.mp listed).elim (blank c) (blank' c)

theorem Blanks.follows {here there : Cursor} (between : Blanks here there) :
    Follows here there := by
  obtain ⟨blanks, -, word⟩ := between
  exact word.follows

theorem Anchor.follows {here there : Cursor} {movement : Movement}
    (anchor : Anchor here movement there) : Follows here there := by
  cases anchor with
  | root word => exact word.follows
  | current word => exact word.follows
  | implicit => exact Follows.refl here

theorem Dots.follows {here there : Cursor} {movement : Movement} (dots : Dots here movement there) :
    Follows here there := by
  cases dots with
  | one word => exact word.follows
  | two word => exact word.follows

theorem Identifier.follows {here there : Cursor} {selector : Selector}
    (identifier : Identifier here selector there) : Follows here there := by
  cases identifier with
  | star word => exact word.follows
  | name _ _ word => exact word.follows

theorem Ending.follows {last final : Step} {here there : Cursor} {compared : Bool}
    (ending : Ending last here final compared there) : Follows here there := by
  cases ending with
  | plain blanks => exact blanks.follows
  | compared blanks _ word _ => exact blanks.follows.trans word.follows
  | unread blanks _ word _ => exact blanks.follows.trans word.follows

mutual

theorem Query.follows {here there : Cursor} {steps : List Step} {compared : Bool} :
    Query here steps compared there → Follows here there
  | .mk anchor accessors ending => anchor.follows.trans (accessors.follows.trans ending.follows)

theorem Accessors.follows {here there : Cursor} {steps : List Step} :
    Accessors here steps there → Follows here there
  | .nil => Follows.refl _
  | .cons blanks accessor accessors =>
    blanks.follows.trans (accessor.follows.trans accessors.follows)

theorem Accessor.follows {here there : Cursor} {step : Step} :
    Accessor here step there → Follows here there
  | .named dots blanks identifier => dots.follows.trans (blanks.follows.trans identifier.follows)
  | .dotted dots blanks bracket => dots.follows.trans (blanks.follows.trans bracket.follows)
  | .bare bracket => bracket.follows

theorem Bracket.follows {movement : Movement} {here there : Cursor} {step : Step} :
    Bracket movement here step there → Follows here there
  | .star word => word.follows
  | .key _ word => word.follows
  | .index _ _ _ word => word.follows
  | .filter opening query closing =>
    opening.follows.trans (query.follows.trans closing.follows)
  | .negated opening query closing =>
    opening.follows.trans (query.follows.trans closing.follows)

end

end PathQuery.Grammar
