import PathQuery.Proofs.Query.Derivation

/-!
# The compiler and the grammar

A query has a plan exactly if the grammar derives it, and the plan is the one
derived.  Both directions go by induction on the fuel: a filter is read with one
unit less than the accessors around it, and what it holds is shorter than what
they hold.
-/

set_option autoImplicit false

namespace PathQuery

open Grammar Compile

theorem bind_eq_ok {ε α β : Type} {result : Except ε α} {next : α → Except ε β} {last : β}
    (found : result >>= next = .ok last) : ∃ first, result = .ok first ∧ next first = .ok last := by
  cases result with
  | error e => cases found
  | ok first => exact ⟨first, rfl, found⟩

theorem map_eq_ok {ε α β : Type} {result : Except ε α} {change : α → β} {last : β}
    (found : change <$> result = .ok last) : ∃ first, result = .ok first ∧ change first = last := by
  cases result with
  | error e => cases found
  | ok first => exact ⟨first, rfl, Except.ok.inj found⟩

theorem negateLast_append (front : List Step) (last : Step) :
    negateLast (front ++ [last]) = front ++ [last.negate] := by
  induction front with
  | nil => rfl
  | cons step front ih =>
    cases front with
    | nil => rfl
    | cons next front =>
      rw [List.cons_append, List.cons_append, negateLast, ← List.cons_append, ih]
      rfl

theorem Grammar.Query.exists_steps {here there : Cursor} {steps : List Step} {compared : Bool}
    (query : Query here steps compared there) : ∃ front last, steps = front ++ [last] := by
  cases query with
  | @mk _ _ _ _ movement front _ final _ _ _ _ =>
    exact ⟨.anchor movement :: front, final, rfl⟩

section Sound

variable {inner : Cursor → Except CompileError Parsed}
  (sound : ∀ here parsed, inner here = .ok parsed →
    Query here parsed.steps parsed.compared parsed.rest)

include sound

theorem filter_sound {movement : Movement} {here there : Cursor} {step : Step}
    {text : List Char} (opening : here.rest = '[' :: '?' :: '(' :: text)
    (found : Compile.filter inner movement (here.advance 3) = .ok (step, there)) :
    Bracket movement here step there := by
  have word : Word ['[', '?', '('] here (here.advance 3) := word_advance opening
  rw [Compile.filter] at found
  obtain ⟨parsed, read, found⟩ := bind_eq_ok found
  have query := sound _ parsed read
  split at found
  · rename_i close
    rw [List.isPrefixOf_iff_prefix] at close
    obtain ⟨after, close⟩ := close
    have closing : Word [')', ']'] parsed.rest (parsed.rest.advance 2) := word_advance close.symm
    cases found
    by_cases mark : (here.advance 3).rest.head? = some '!'
    · obtain ⟨front, last, written⟩ := query.exists_steps
      obtain ⟨more, mark'⟩ := List.head?_eq_some_iff.mp mark
      have word' : Word ['!'] (here.advance 3) ((here.advance 3).advance 1) := word_advance mark'
      rw [if_pos mark, written] at query
      rw [if_pos mark, written, negateLast_append]
      exact .negated (word.append word') query closing
    · rw [if_neg mark] at query ⊢
      exact .filter word query closing
  · cases found

theorem bracket_sound {movement : Movement} {here there : Cursor} {step : Step}
    (found : bracket inner movement here = .ok (step, there)) :
    Bracket movement here step there := by
  rw [bracket] at found
  split at found
  · rename_i rest text
    cases found
    exact .star (word_advance (text : here.rest = ['[', '*', ']'] ++ rest))
  · rename_i rest text
    obtain ⟨⟨key, stop⟩, read, found⟩ := bind_eq_ok found
    cases found
    obtain ⟨body, spells, word⟩ := QuotedKey.read_eq_ok_iff.mp read
    have opening : Word ['[', '\''] here (here.advance 2) :=
      word_advance (text : here.rest = ['[', '\''] ++ rest)
    exact .key spells (opening.append word)
  · rename_i rest text
    exact filter_sound sound text found
  · exact index_sound found

theorem dotted_sound {movement : Movement} {here near there : Cursor} {step : Step}
    (dots : Dots here movement near)
    (found : dotted inner movement near.skipBlanks = .ok (step, there)) :
    Accessor here step there := by
  have blanks := blanks_skipBlanks near
  rw [dotted.eq_def] at found
  split at found
  · cases found
  · cases found
  · exact .dotted dots blanks (bracket_sound sound found)
  · obtain ⟨selector, identifier, rfl⟩ := identifier_sound found
    exact .named dots blanks identifier

theorem accessor?_sound {here there : Cursor} {step : Step}
    (found : accessor? inner here = .ok (some (step, there))) : Accessor here step there := by
  rw [accessor?.eq_def] at found
  split at found
  · rename_i rest text
    obtain ⟨pair, read, same⟩ := map_eq_ok found
    cases same
    exact dotted_sound sound (.two (word_advance (text : here.rest = ['.', '.'] ++ rest))) read
  · rename_i rest _ text
    obtain ⟨pair, read, same⟩ := map_eq_ok found
    cases same
    exact dotted_sound sound (.one (word_advance (text : here.rest = ['.'] ++ rest))) read
  · obtain ⟨pair, read, same⟩ := map_eq_ok found
    cases same
    exact .bare (bracket_sound sound read)
  · cases found

end Sound

theorem anchor_sound {here there : Cursor} {first : Step} (found : anchor here = (first, there)) :
    ∃ movement, first = .anchor movement ∧ Anchor here movement there := by
  rw [anchor] at found
  split at found
  · rename_i rest text
    cases found
    exact ⟨.root, rfl, .root (word_advance (text : here.rest = ['$'] ++ rest))⟩
  · rename_i rest text
    cases found
    exact ⟨.current, rfl, .current (word_advance (text : here.rest = ['@'] ++ rest))⟩
  · cases found
    exact ⟨.current, rfl, .implicit⟩

theorem query_eq_ok_iff {read : Step → Cursor → Except CompileError Parsed} {here : Cursor}
    {parsed : Parsed} :
    query read here = .ok parsed ↔ here.rest ≠ [] ∧ ∃ first near, anchor here = (first, near) ∧
      read first near = .ok parsed ∧ 2 ≤ parsed.steps.length := by
  rw [query]
  constructor
  · intro found
    split at found
    · cases found
    · rename_i some'
      obtain ⟨parsed', read', found⟩ := bind_eq_ok found
      split at found
      · cases found
      · rename_i long
        cases found
        exact ⟨by simpa using some', _, _, rfl, read', Nat.le_of_not_lt long⟩
  · intro written
    obtain ⟨some', first, near, anchored, read', long⟩ := written
    rw [if_neg (by simpa using some'), anchored]
    change (read first near >>= _) = _
    rw [read']
    change (if parsed.steps.length < 2 then _ else _) = _
    rw [if_neg (Nat.not_lt.mpr long)]

theorem query_sound {behind : Step → Cursor → Except CompileError Parsed}
    (sound : ∀ last here parsed, behind last here = .ok parsed →
      Behind last here parsed.steps parsed.compared parsed.rest)
    {here : Cursor} {parsed : Parsed} (found : query behind here = .ok parsed) :
    Query here parsed.steps parsed.compared parsed.rest := by
  obtain ⟨-, first, near, anchored, read, long⟩ := query_eq_ok_iff.mp found
  obtain ⟨movement, rfl, written⟩ := anchor_sound anchored
  exact query_iff.mpr ⟨movement, near, written, sound _ _ _ read, long⟩

theorem accessors_eq_ok_iff {fuel : Nat} {last : Step} {here : Cursor} {parsed : Parsed} :
    accessors (fuel + 1) last here = .ok parsed ↔
      accessor? (query (accessors fuel)) here.skipBlanks = .ok none ∧
          finish last here.skipBlanks = .ok parsed ∨
        ∃ step there later,
          accessor? (query (accessors fuel)) here.skipBlanks = .ok (some (step, there)) ∧
            accessors fuel step there = .ok later ∧
              parsed = { later with steps := last :: later.steps } := by
  rw [accessors]
  constructor
  · intro found
    obtain ⟨next, read, found⟩ := bind_eq_ok found
    cases next with
    | none => exact .inl ⟨read, found⟩
    | some pair =>
      obtain ⟨later, read', found⟩ := bind_eq_ok found
      exact .inr ⟨pair.1, pair.2, later, read, read', (Except.ok.inj found).symm⟩
  · intro either
    rcases either with ⟨read, found⟩ | ⟨step, there, later, read, read', rfl⟩
    · rw [read]
      exact found
    · rw [read]
      change (accessors fuel step there >>= _) = _
      rw [read']
      rfl

theorem accessors_sound (fuel : Nat) :
    ∀ last here parsed, accessors fuel last here = .ok parsed →
      Behind last here parsed.steps parsed.compared parsed.rest := by
  induction fuel with
  | zero =>
    intro last here parsed found
    cases found
  | succ fuel ih =>
    intro last here parsed found
    rcases accessors_eq_ok_iff.mp found with ⟨-, found⟩ | ⟨step, there, later, read, behind, rfl⟩
    · obtain ⟨final, only, ending⟩ := finish_sound found
      rw [only]
      exact .ending ending
    · have accessor := accessor?_sound (fun _ _ => query_sound ih) read
      exact .accessor (blanks_skipBlanks here) accessor (ih _ _ _ behind)

theorem accessors_of_accessor {size : Nat} {last step : Step} {here near there : Cursor}
    {later : Parsed} (blanks : Blanks here near)
    (found : accessor? (query (accessors size)) near = .ok (some (step, there)))
    (behind : accessors size step there = .ok later) :
    accessors (size + 1) last here = .ok { later with steps := last :: later.steps } := by
  have accessor := accessor?_sound (fun _ _ => query_sound (accessors_sound size)) found
  rw [← skipBlanks_eq blanks accessor.opens.fresh] at found
  exact accessors_eq_ok_iff.mpr (.inr ⟨step, there, later, found, behind, rfl⟩)

theorem accessor?_progress {fuel : Nat} {here there : Cursor} {step : Step}
    (found : accessor? (query (accessors fuel)) here.skipBlanks = .ok (some (step, there))) :
    there.rest <:+ here.rest ∧ there.rest.length < here.rest.length := by
  have blanks := blanks_skipBlanks here
  have accessor := accessor?_sound (fun _ _ => query_sound (accessors_sound fuel)) found
  refine ⟨(blanks.follows.trans accessor.follows).suffix, ?_⟩
  exact Nat.lt_of_lt_of_le accessor.length_lt blanks.follows.suffix.length_le

/-! ## Everything derived is read -/

section Complete

variable {inner : Cursor → Except CompileError Parsed}

theorem accessor?_none {here : Cursor} (outside : Outside here.rest) :
    accessor? inner here = .ok none := by
  rw [accessor?.eq_def]
  split
  · rename_i rest text
    have dot := (outside '.' (by rw [text, List.head?_cons])).2.2.1
    exact absurd rfl dot
  · rename_i rest _ text
    have dot := (outside '.' (by rw [text, List.head?_cons])).2.2.1
    exact absurd rfl dot
  · rename_i rest text
    have bracket := (outside '[' (by rw [text, List.head?_cons])).2.2.2
    exact absurd rfl bracket
  · rfl

theorem bracket_index {movement : Movement} {here there : Cursor} {negative : Bool}
    {digits : List Char} (some' : digits ≠ []) (digit : ∀ c ∈ digits, Digit c)
    (word : Word ('[' :: (sign negative ++ digits ++ [']'])) here there) :
    bracket inner movement here = index movement here := by
  have plain : ∃ c rest, here.rest = '[' :: c :: rest ∧ c ≠ '*' ∧ c ≠ '\'' ∧ c ≠ '?' := by
    cases negative with
    | true => exact ⟨'-', _, word.1, by decide⟩
    | false =>
      cases digits with
      | nil => exact absurd rfl some'
      | cons c more =>
        have first := (isDigit_iff c).mpr (digit c (List.mem_cons_self ..))
        have other : ∀ d, d.isDigit = false → c ≠ d := by
          intro d different same
          rw [same, different] at first
          cases first
        exact ⟨c, _, word.1, other '*' rfl, other '\'' rfl, other '?' rfl⟩
  obtain ⟨c, rest, text, star, quote, mark⟩ := plain
  rw [bracket, text]
  simp only [List.cons.injEq, true_and, star, quote, mark, false_and, imp_self, implies_true]

theorem dotted_identifier {movement : Movement} {here there : Cursor} {selector : Selector}
    (written : Identifier here selector there) :
    dotted inner movement here = identifier movement here := by
  obtain ⟨c, rest, text, -, dot, bracket⟩ := written.exists_head
  rw [dotted, text]
  simp only [List.cons.injEq, dot, bracket, false_and, imp_self, implies_true]

theorem accessor?_dots {here behind near : Cursor} {movement : Movement}
    (dots : Dots here movement behind) (blanks : Blanks behind near) {c : Char}
    {rest : List Char} (text : near.rest = c :: rest) (filled : Text.isBlank c = false)
    (dot : c ≠ '.') : accessor? inner here = some <$> dotted inner movement near := by
  have fresh : Fresh near.rest := by
    intro d first
    rw [text] at first
    cases first
    exact filled
  have skipped : behind.skipBlanks = near := skipBlanks_eq blanks fresh
  cases dots with
  | two word =>
    rw [accessor?, word.1, ← skipped, word.eq_advance]
    rfl
  | one word =>
    have single : ∀ more, behind.rest ≠ '.' :: more := by
      intro more same
      rcases blanks.head (by rw [same, List.head?_cons]) with blank | later
      · cases blank
      · rw [text] at later
        cases later
        exact dot rfl
    rw [accessor?, word.1, ← skipped]
    -- the case of two dots goes by `single`
    simp only [List.singleton_append]
    rw [word.eq_advance]
    rfl

theorem filter_of_read {movement : Movement} {here stop there : Cursor} {steps : List Step}
    {compared : Bool}
    (read : inner (if here.rest.head? = some '!' then here.advance 1 else here) =
      .ok ⟨steps, compared, stop⟩)
    (closing : Word [')', ']'] stop there) :
    Compile.filter inner movement here =
      .ok (.filter movement
        (.mk (if here.rest.head? = some '!' then negateLast steps else steps) stop.offset) false,
        there) := by
  have close : [')', ']'] <+: stop.rest := ⟨there.rest, closing.1.symm⟩
  rw [Compile.filter]
  simp only [read]
  change (if [')', ']'].isPrefixOf stop.rest then _ else _) = _
  rw [if_pos (List.isPrefixOf_iff_prefix.mpr close), closing.eq_advance]
  rfl

variable {size : Nat}
  (complete : ∀ here steps compared there, Query here steps compared there →
    Closed compared there → ShortRuns here.rest → here.rest.length < size →
    inner here = .ok ⟨steps, compared, there⟩)

include complete

theorem filter_complete {movement : Movement} {here stop there : Cursor} {steps : List Step}
    {compared : Bool} (query : Query here steps compared stop)
    (closing : Word [')', ']'] stop there) (short : ShortRuns here.rest)
    (room : here.rest.length < size) :
    Compile.filter inner movement here =
      .ok (.filter movement (.mk steps stop.offset) false, there) := by
  have read := complete here steps compared stop query closing.closed short room
  rw [filter_of_read (by rwa [if_neg query.head_ne]) closing, if_neg query.head_ne]

theorem filter_negated_complete {movement : Movement} {here inside stop there : Cursor}
    {front : List Step} {last : Step} {compared : Bool} (mark : Word ['!'] here inside)
    (query : Query inside (front ++ [last]) compared stop)
    (closing : Word [')', ']'] stop there) (short : ShortRuns inside.rest)
    (room : inside.rest.length < size) :
    Compile.filter inner movement here =
      .ok (.filter movement (.mk (front ++ [last.negate]) stop.offset) false, there) := by
  have read := complete inside _ compared stop query closing.closed short room
  have marked : here.rest.head? = some '!' := by rw [mark.1]; rfl
  rw [mark.eq_advance] at read
  rw [filter_of_read (by rwa [if_pos marked]) closing, if_pos marked, negateLast_append]

theorem bracket_complete {movement : Movement} {here there : Cursor} {step : Step}
    (written : Bracket movement here step there) (short : ShortRuns here.rest)
    (room : here.rest.length ≤ size) : bracket inner movement here = .ok (step, there) := by
  cases written with
  | star word =>
    rw [word.eq_advance, bracket, word.1]
    rfl
  | @key _ _ _ body key spells word =>
    have whole : Word (['[', '\''] ++ (body ++ ['\'', ']'])) here there := word
    have read : QuotedKey.read (here.advance 2) = .ok (key, there) :=
      QuotedKey.read_eq_ok_iff.mpr ⟨body, spells, whole.behind⟩
    rw [bracket, word.1]
    change (QuotedKey.read (here.advance 2) >>= _) = _
    rw [read]
    rfl
  | @index _ _ _ digits negative some' digit word =>
    have run : digits <:+: here.rest := by
      refine ⟨'[' :: sign negative, ']' :: there.rest, ?_⟩
      rw [word.1]
      simp
    rw [bracket_index some' digit word]
    exact index_complete movement some' digit word (short digits run digit)
  | @filter _ _ inside stop _ steps compared opening query closing =>
    have shorter := Nat.lt_of_lt_of_le opening.length_lt room
    have next : here.advance 3 = inside := opening.eq_advance.symm
    rw [bracket, opening.1]
    change Compile.filter inner movement (here.advance 3) = _
    rw [next]
    exact filter_complete complete query closing (short.suffix opening.suffix) shorter
  | @negated _ _ inside stop _ front last compared opening query closing =>
    have shorter := Nat.lt_of_lt_of_le opening.length_lt room
    have whole : Word (['[', '?', '('] ++ ['!']) here inside := opening
    rw [bracket, opening.1]
    change Compile.filter inner movement (here.advance 3) = _
    exact filter_negated_complete complete whole.behind query closing
      (short.suffix opening.suffix) shorter

theorem accessor?_complete {here there : Cursor} {step : Step}
    (written : Accessor here step there) (short : ShortRuns here.rest)
    (edge : ∀ c, there.rest.head? = some c → isWordPart c = false)
    (room : here.rest.length ≤ size) : accessor? inner here = .ok (some (step, there)) := by
  cases written with
  | @named _ behind near _ movement selector dots blanks identifier =>
    obtain ⟨c, rest, text, filled, dot, -⟩ := identifier.exists_head
    rw [accessor?_dots dots blanks text filled dot, dotted_identifier identifier,
      identifier_complete movement identifier edge]
    rfl
  | @dotted _ behind near _ movement _ dots blanks bracket =>
    obtain ⟨rest, text⟩ := bracket.exists_rest
    have inside := (dots.follows.trans blanks.follows).suffix
    have size' : near.rest.length ≤ size := Nat.le_trans inside.length_le room
    rw [accessor?_dots dots blanks text (by decide) (by decide), Compile.dotted, text]
    change some <$> Compile.bracket inner movement near = _
    rw [bracket_complete complete bracket (short.suffix inside) size']
    rfl
  | bare bracket =>
    obtain ⟨rest, text⟩ := bracket.exists_rest
    rw [accessor?, text]
    change some <$> Compile.bracket inner .children here = _
    rw [bracket_complete complete bracket short room]
    rfl

end Complete

theorem query_complete {read : Step → Cursor → Except CompileError Parsed} {size : Nat}
    (complete : ∀ last here steps compared there, Behind last here steps compared there →
      Closed compared there → ShortRuns here.rest → here.rest.length < size →
      read last here = .ok ⟨steps, compared, there⟩)
    {here there : Cursor} {steps : List Step} {compared : Bool}
    (written : Query here steps compared there) (closed : Closed compared there)
    (short : ShortRuns here.rest) (room : here.rest.length < size) :
    query read here = .ok ⟨steps, compared, there⟩ := by
  obtain ⟨movement, near, anchored, behind, length⟩ := query_iff.mp written
  obtain ⟨some', -, first⟩ := anchor_complete anchored behind length
  have inside := anchored.follows.suffix
  have size' : near.rest.length < size := Nat.lt_of_le_of_lt inside.length_le room
  have found := complete _ near steps compared there behind closed (short.suffix inside) size'
  exact query_eq_ok_iff.mpr ⟨some', _, near, first, found, length⟩

theorem accessors_complete (fuel : Nat) :
    ∀ last here steps compared there, Behind last here steps compared there →
      Closed compared there → ShortRuns here.rest → here.rest.length < fuel →
      accessors fuel last here = .ok ⟨steps, compared, there⟩ := by
  induction fuel with
  | zero =>
    intro last here steps compared there _ _ _ room
    exact absurd room (Nat.not_lt_zero _)
  | succ fuel ih =>
    intro last here steps compared there behind closed short room
    cases behind with
    | ending ending =>
      obtain ⟨outside, finished⟩ := finish_complete ending closed
      exact accessors_eq_ok_iff.mpr (.inl ⟨accessor?_none outside, finished⟩)
    | @accessor _ step _ near stop _ steps _ blanks accessor behind =>
      have inside := blanks.follows.suffix
      have further := accessor.follows.suffix.trans inside
      have length := inside.length_le
      have shorter := accessor.length_lt
      have found : accessor? (query (accessors fuel)) near = .ok (some (step, stop)) :=
        accessor?_complete (fun _ _ _ _ => query_complete ih) accessor (short.suffix inside)
          (behind.edge closed) (by omega)
      have later := ih step stop steps compared there behind closed (short.suffix further)
        (by omega)
      exact accessors_of_accessor blanks found later

/-! ## Whole texts -/

theorem accessors_fresh (fuel : Nat) :
    ∀ last here parsed, accessors fuel last here = .ok parsed → parsed.compared = false →
      Fresh parsed.rest.rest := by
  induction fuel with
  | zero =>
    intro last here parsed found
    cases found
  | succ fuel ih =>
    intro last here parsed found plain
    rcases accessors_eq_ok_iff.mp found with ⟨-, found⟩ | ⟨step, there, later, -, behind, rfl⟩
    · simp only [finish] at found
      split at found
      · cases found
        exact fresh_skipBlanks here
      · cases last with
        | filter movement plan negated => cases found
        | keyed movement selector comparison negated =>
          cases found
          cases plain
    · exact ih _ _ later behind plain

theorem query_fresh {fuel : Nat} {here : Cursor} {parsed : Parsed}
    (found : query (accessors fuel) here = .ok parsed) (plain : parsed.compared = false) :
    Fresh parsed.rest.rest := by
  obtain ⟨-, first, near, -, read, -⟩ := query_eq_ok_iff.mp found
  exact accessors_fresh fuel first near parsed read plain

theorem query_rest_eq_nil {fuel : Nat} {here : Cursor} {parsed : Parsed}
    (found : query (accessors fuel) here = .ok parsed) (plain : parsed.compared = false)
    (blank : ∀ c ∈ parsed.rest.rest, Text.isBlank c = true) : parsed.rest.rest = [] := by
  have fresh := query_fresh found plain
  cases left : parsed.rest.rest with
  | nil => rfl
  | cons c more =>
    have filled := fresh c (by rw [left, List.head?_cons])
    have listed : c ∈ parsed.rest.rest := by
      rw [left]
      exact List.mem_cons_self ..
    rw [blank c listed] at filled
    cases filled

theorem Grammar.Query.close {here there : Cursor} {steps : List Step}
    (query : Query here steps true there) : [')', ']'] <+: there.rest := by
  have cut : ∀ {near : Cursor} {op : Operator} {literal : List Char},
      Compares near.rest op literal → Word (op.symbol.toList ++ literal) near there →
      [')', ']'] <+: there.rest := by
    intro near op literal compares word
    obtain ⟨-, -, ends⟩ := compares.1
    rwa [word.1, List.prefix_append_right_inj] at ends
  cases query with
  | mk _ _ ending =>
    cases ending with
    | compared _ compares word _ => exact cut compares word
    | unread _ compares word _ => exact cut compares word

def stopOf (parsed : Parsed) : Cursor :=
  if parsed.compared && [')', ']'].isPrefixOf parsed.rest.rest then parsed.rest.advance 2
  else parsed.rest

theorem compile_eq_ok_iff_read {text : String} {plan : Plan} :
    compile text = .ok plan ↔ ∃ parsed,
      query (accessors (text.length + 1)) (Cursor.start text) = .ok parsed ∧
        (∀ c ∈ (stopOf parsed).rest, Text.isBlank c = true) ∧
        plan = .mk parsed.steps (stopOf parsed).offset := by
  rw [compile]
  constructor
  · intro found
    obtain ⟨parsed, read, found⟩ := bind_eq_ok found
    change (if (stopOf parsed).rest.all Text.isBlank then _ else _) = _ at found
    split at found
    · rename_i blank
      exact ⟨parsed, read, List.all_eq_true.mp blank, (Except.ok.inj found).symm⟩
    · cases found
  · intro written
    obtain ⟨parsed, read, blank, rfl⟩ := written
    rw [read]
    change (if (stopOf parsed).rest.all Text.isBlank then _ else _) = _
    rw [if_pos (List.all_eq_true.mpr blank)]
    rfl

theorem stopOf_compared {steps : List Step} {near stop : Cursor}
    (closing : Word [')', ']'] near stop) : stopOf ⟨steps, true, near⟩ = stop := by
  have close : [')', ']'] <+: near.rest := ⟨stop.rest, closing.1.symm⟩
  have present : (true && [')', ']'].isPrefixOf near.rest) = true :=
    List.isPrefixOf_iff_prefix.mpr close
  rw [stopOf]
  exact (if_pos present).trans closing.eq_advance.symm

theorem stopOf_plain (steps : List Step) (stop : Cursor) : stopOf ⟨steps, false, stop⟩ = stop :=
  rfl

theorem compile_sound {text : String} {plan : Plan} (found : compile text = .ok plan) :
    Derives text plan := by
  obtain ⟨⟨steps, compared, rest⟩, read, blank, rfl⟩ := compile_eq_ok_iff_read.mp found
  have derived := query_sound (accessors_sound _) read
  cases compared with
  | true =>
    obtain ⟨after, close⟩ := derived.close
    have closing : Word [')', ']'] rest (rest.advance 2) := word_advance close.symm
    rw [stopOf_compared closing] at blank ⊢
    exact .compared derived closing blank
  | false =>
    rw [stopOf_plain] at blank ⊢
    exact .plain derived (query_rest_eq_nil read rfl blank)

theorem compile_complete {text : String} (short : ShortRuns text.toList) {plan : Plan}
    (written : Derives text plan) : compile text = .ok plan := by
  have room : (Cursor.start text).rest.length < text.length + 1 := by
    rw [Cursor.start, String.length_toList]
    exact Nat.lt_succ_self _
  rw [compile_eq_ok_iff_read]
  cases written with
  | @plain steps stop derived ends =>
    have read := query_complete (accessors_complete _) derived (.inr (.inl ends)) short room
    refine ⟨⟨steps, false, stop⟩, read, ?_, rfl⟩
    intro c listed
    change c ∈ stop.rest at listed
    rw [ends] at listed
    cases listed
  | @compared steps near stop derived closing blank =>
    have read := query_complete (accessors_complete _) derived (.inl rfl) short room
    refine ⟨⟨steps, true, near⟩, read, ?_, ?_⟩
    · rwa [stopOf_compared closing]
    · rw [stopOf_compared closing]

/-- A text has the plan that the grammar gives it, and none if the grammar gives none. -/
theorem compile_eq_ok_iff (text : String) (short : ShortRuns text.toList) (plan : Plan) :
    compile text = .ok plan ↔ Derives text plan :=
  ⟨compile_sound, compile_complete short⟩

theorem compile_eq_ok_iff_negated_filter :
    ShortRuns "$..a[?(!@['it\\'s'] == null)] [-2]".toList ∧
      Derives "$..a[?(!@['it\\'s'] == null)] [-2]"
        (.mk [.anchor .root, .keyed .descendants (some (.name "a")) none false,
          .filter .children
            (.mk [.anchor .current,
              .keyed .children (some (.name "it's")) (some ⟨.equal, .null⟩) true] 26) false,
          .keyed .children (some (.index (-2))) none false] 33) := by
  have short : ShortRuns "$..a[?(!@['it\\'s'] == null)] [-2]".toList := by
    intro digits run _
    exact Nat.le_trans run.length_le (by decide)
  exact ⟨short, (compile_eq_ok_iff _ short _).mp rfl⟩

theorem Grammar.Accessor.negated_eq_false {here there : Cursor} {step : Step}
    (written : Accessor here step there) : step.negated = false := by
  have bracket : ∀ {movement : Movement} {near : Cursor},
      Bracket movement near step there → step.negated = false := by
    intro movement near bracket
    cases bracket <;> rfl
  cases written with
  | named => rfl
  | dotted _ _ inside => exact bracket inside
  | bare inside => exact bracket inside

theorem Grammar.Ending.negated_eq {last final : Step} {here there : Cursor} {compared : Bool}
    (ending : Ending last here final compared there) : final.negated = last.negated := by
  cases ending <;> rfl

theorem Behind.forall_steps {holds : Step → Prop}
    (read : ∀ {here step there}, Accessor here step there → holds step)
    (ended : ∀ {last here final compared there}, Ending last here final compared there →
      holds last → holds final)
    {last : Step} {here there : Cursor} {steps : List Step} {compared : Bool}
    (behind : Behind last here steps compared there) (first : holds last) :
    ∀ step ∈ steps, holds step := by
  induction behind with
  | ending ending =>
    intro step listed
    rw [List.mem_singleton] at listed
    rw [listed]
    exact ended ending first
  | accessor _ accessor _ ih =>
    intro step listed
    rcases List.mem_cons.mp listed with same | later
    · rw [same]
      exact first
    · exact ih (read accessor) step later

theorem Grammar.Query.negated_eq_false {here there : Cursor} {steps : List Step} {compared : Bool}
    (derived : Query here steps compared there) : ∀ step ∈ steps, step.negated = false := by
  obtain ⟨movement, near, -, behind, -⟩ := query_iff.mp derived
  exact behind.forall_steps (fun accessor => accessor.negated_eq_false)
    (fun ending plain => ending.negated_eq.trans plain) rfl

/-- Outside of filters no step of a compiled plan is negated. -/
theorem negated_eq_false_of_compile {text : String} {plan : Plan}
    (compiled : compile text = .ok plan) : ∀ step ∈ plan.steps, step.negated = false := by
  cases compile_sound compiled with
  | plain derived _ => exact derived.negated_eq_false
  | compared derived _ _ => exact derived.negated_eq_false

theorem Grammar.Accessor.isAnchor_eq_false {here there : Cursor} {step : Step}
    (written : Accessor here step there) : step.movement.isAnchor = false := by
  have bracket : ∀ {movement : Movement} {near : Cursor}, Bracket movement near step there →
      movement.isAnchor = false → step.movement.isAnchor = false := by
    intro movement near bracket goes
    cases bracket <;> exact goes
  have dots : ∀ {movement : Movement} {near : Cursor}, Dots here movement near →
      movement.isAnchor = false := by
    intro movement near dots
    cases dots <;> rfl
  cases written with
  | named opening => exact dots opening
  | dotted opening _ inside => exact bracket inside (dots opening)
  | bare inside => exact bracket inside rfl

theorem Grammar.Ending.movement_eq {last final : Step} {here there : Cursor} {compared : Bool}
    (ending : Ending last here final compared there) : final.movement = last.movement := by
  cases ending <;> rfl

theorem Behind.exists_rest {last : Step} {here there : Cursor} {steps : List Step}
    {compared : Bool} (behind : Behind last here steps compared there)
    (long : 2 ≤ steps.length) :
    ∃ rest, steps = last :: rest ∧ ∀ step ∈ rest, step.movement.isAnchor = false := by
  cases behind with
  | ending => simp at long
  | accessor _ accessor behind =>
    refine ⟨_, rfl, ?_⟩
    exact behind.forall_steps (fun accessor => accessor.isAnchor_eq_false)
      (fun ending goes => by rwa [ending.movement_eq]) accessor.isAnchor_eq_false

end PathQuery
