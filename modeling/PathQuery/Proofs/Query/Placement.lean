import PathQuery.Proofs.Query.Compile

/-!
# Reading a query where it stands

A query that has been read is read the same way when text is put before it and
behind it (`accessors_place`): its places move, and the plans inside it end as
much later.  What stands behind it has to end it as it ended before, and one
text in it must not occur.  In `<=)]` the equals sign is a literal of its own,
but only as long as no other `)]` comes on the line.
-/

set_option autoImplicit false

namespace PathQuery

open Grammar Compile

/-- The same place with `distance` characters put before its text and `after` behind it. -/
def Cursor.place (distance : Nat) (after : List Char) (cursor : Cursor) : Cursor :=
  ⟨cursor.offset + distance, cursor.rest ++ after⟩

mutual

/-- The plan whose end, and the ends of the plans inside it, come later by a distance. -/
def Plan.shift (distance : Nat) : Plan → Plan
  | .mk steps stop => .mk (Plan.shiftSteps distance steps) (stop + distance)

def Plan.shiftSteps (distance : Nat) : List Step → List Step
  | [] => []
  | step :: rest => Step.shift distance step :: Plan.shiftSteps distance rest

def Step.shift (distance : Nat) : Step → Step
  | .keyed movement selector comparison negated => .keyed movement selector comparison negated
  | .filter movement plan negated => .filter movement (Plan.shift distance plan) negated

end

def Parsed.place (distance : Nat) (after : List Char) (parsed : Parsed) : Parsed :=
  ⟨parsed.steps.map (Step.shift distance), parsed.compared, parsed.rest.place distance after⟩

theorem Plan.shiftSteps_eq_map (distance : Nat) (steps : List Step) :
    Plan.shiftSteps distance steps = steps.map (Step.shift distance) := by
  induction steps with
  | nil => rfl
  | cons step rest ih => rw [Plan.shiftSteps, ih, List.map_cons]

@[simp]
theorem Step.shift_negate (distance : Nat) (step : Step) :
    Step.shift distance step.negate = (Step.shift distance step).negate := by
  cases step <;> rfl

theorem map_shift_negateLast (distance : Nat) (steps : List Step) :
    (negateLast steps).map (Step.shift distance) =
      negateLast (steps.map (Step.shift distance)) := by
  induction steps using negateLast.induct with
  | case1 => rfl
  | case2 last => simp [negateLast]
  | case3 step next rest ih => simpa [negateLast] using ih

/-- A text in which an order that includes equality is asked of nothing. -/
def EmptyOrder (text : List Char) : Prop :=
  ['<', '=', ')', ']'] <:+: text ∨ ['>', '=', ')', ']'] <:+: text

instance (text : List Char) : Decidable (EmptyOrder text) :=
  inferInstanceAs (Decidable (_ ∨ _))

/-- Text `after` behind a text does not change how the comparisons in it are read. -/
def Settled (after text : List Char) : Prop :=
  after = [] ∨ ¬ EmptyOrder text

theorem EmptyOrder.of_infix {text part : List Char} (empty : EmptyOrder part)
    (inside : part <:+: text) : EmptyOrder text :=
  empty.imp (fun run => run.trans inside) fun run => run.trans inside

theorem Settled.of_suffix {after text rest : List Char} (settled : Settled after text)
    (suffix : rest <:+ text) : Settled after rest :=
  settled.imp_right fun clear empty => clear (empty.of_infix suffix.isInfix)

theorem Operator.eq_or_of_isPrefix {op other : Operator}
    (start : op.symbol.toList <+: other.symbol.toList) :
    op = other ∨ op = .less ∧ other = .atMost ∨ op = .greater ∧ other = .atLeast := by
  revert start
  cases op <;> cases other <;> decide

theorem Operator.symbol_eq_of_isPrefix {op other : Operator}
    (start : op.symbol.toList <+: other.symbol.toList) (different : op ≠ other) :
    other.symbol.toList = op.symbol.toList ++ ['='] ∧
      EmptyOrder (other.symbol.toList ++ [')', ']']) := by
  rcases Operator.eq_or_of_isPrefix start with same | ⟨rfl, rfl⟩ | ⟨rfl, rfl⟩
  · exact absurd same different
  · exact ⟨rfl, .inl (List.infix_refl _)⟩
  · exact ⟨rfl, .inr (List.infix_refl _)⟩

theorem Grammar.Cuts.append {text : List Char} {op : Operator} {literal : List Char}
    (cuts : Cuts text op literal) (after : List Char) : Cuts (text ++ after) op literal :=
  ⟨cuts.1, cuts.2.1, cuts.2.2.trans (List.prefix_append text after)⟩

theorem Grammar.Cuts.isPrefix {text : List Char} {op : Operator} {literal : List Char}
    (cuts : Cuts text op literal) : op.symbol.toList <+: text := by
  obtain ⟨-, -, rest, rfl⟩ := cuts
  exact ⟨literal ++ [')', ']'] ++ rest, by simp⟩

theorem Grammar.Cuts.isPrefix_of_length_le {text : List Char} {op other : Operator}
    {literal found : List Char} (cuts : Cuts text op literal) (cuts' : Cuts text other found)
    (length : op.symbol.length ≤ other.symbol.length) :
    op.symbol.toList <+: other.symbol.toList := by
  refine List.prefix_of_prefix_length_le cuts.isPrefix cuts'.isPrefix ?_
  rwa [String.length_toList, String.length_toList]

theorem Grammar.Cuts.eq_of_length {text : List Char} {op other : Operator}
    {literal found : List Char} (cuts : Cuts text op literal) (cuts' : Cuts text other found)
    (length : op.symbol.length = other.symbol.length) : op = other := by
  have start := cuts.isPrefix_of_length_le cuts' (Nat.le_of_eq length)
  rcases Operator.eq_or_of_isPrefix start with same | ⟨rfl, rfl⟩ | ⟨rfl, rfl⟩
  · exact same
  · cases length
  · cases length

theorem Grammar.Cuts.of_shorter {text after : List Char} {op : Operator}
    {literal found : List Char} (cuts : Cuts text op literal)
    (cuts' : Cuts (text ++ after) op found) (shorter : found.length ≤ literal.length) :
    Cuts text op found := by
  refine ⟨cuts'.1, cuts'.2.1, ?_⟩
  refine List.prefix_of_prefix_length_le cuts'.2.2 (List.prefix_append text after) ?_
  have length := cuts.2.2.length_le
  simp only [List.length_append] at length ⊢
  omega

theorem Grammar.Cuts.of_longer {text after : List Char} {op other : Operator}
    {literal found : List Char} (cuts : Cuts text op literal)
    (cuts' : Cuts (text ++ after) other found)
    (longer : op.symbol.length < other.symbol.length) (clear : ¬ EmptyOrder text) :
    ∃ found', Cuts text other found' := by
  have start := (cuts.append after).isPrefix_of_length_le cuts' (Nat.le_of_lt longer)
  have different : op ≠ other := by
    rintro rfl
    exact Nat.lt_irrefl _ longer
  obtain ⟨symbol, empty⟩ := Operator.symbol_eq_of_isPrefix start different
  have there := cuts'.isPrefix
  obtain ⟨some', line, rest, split⟩ := cuts
  obtain ⟨c, more, rfl⟩ := List.exists_cons_of_ne_nil some'
  -- the equals sign is the first character of the literal that the shorter operator has
  have equals : c = '=' := by
    rw [← split, symbol] at there
    simpa [eq_comm] using there
  subst equals
  have whole : other.symbol.toList ++ more ++ [')', ']'] ++ rest = text := by
    rw [← split, symbol]
    simp
  refine ⟨more, ?_, fun listed => line (List.mem_cons_of_mem _ listed), rest, whole⟩
  rintro rfl
  rw [List.append_nil] at whole
  exact clear (empty.of_infix ⟨[], rest, whole⟩)

theorem Grammar.Compares.append {text after : List Char} {op : Operator} {literal : List Char}
    (compares : Compares text op literal) (settled : Settled after text) :
    Compares (text ++ after) op literal := by
  rcases settled with rfl | clear
  · rwa [List.append_nil]
  refine ⟨compares.1.append after, ?_⟩
  intro other found cuts
  rcases Nat.lt_trichotomy other.symbol.length op.symbol.length with shorter | same | longer
  · exact .inl shorter
  · have equal : other = op := cuts.eq_of_length (compares.1.append after) same
    subst equal
    refine .inr ⟨rfl, ?_⟩
    by_contra shorter
    have inside := compares.1.of_shorter cuts (by omega)
    rcases compares.2 other found inside with less | ⟨-, least⟩
    · omega
    · exact shorter least
  · obtain ⟨found', cuts'⟩ := compares.1.of_longer cuts longer clear
    rcases compares.2 other found' cuts' with shorter | ⟨same, -⟩
    · omega
    · rw [same] at longer
      omega

section Place

variable {distance : Nat} {after : List Char} {here there : Cursor}

theorem Cursor.place_advance {count : Nat} (inside : count ≤ here.rest.length) :
    (here.place distance after).advance count = (here.advance count).place distance after := by
  simp only [Cursor.advance, Cursor.place, List.drop_append_of_le_length inside,
    Nat.add_right_comm]

theorem Grammar.Word.place {word : List Char} (between : Word word here there) :
    Word word (here.place distance after) (there.place distance after) := by
  obtain ⟨text, offset⟩ := between
  constructor
  · simp only [Cursor.place, text, List.append_assoc]
  · simp only [Cursor.place, offset, Nat.add_right_comm]

theorem Grammar.Blanks.place (between : Blanks here there) :
    Blanks (here.place distance after) (there.place distance after) := by
  obtain ⟨blanks, blank, word⟩ := between
  exact ⟨blanks, blank, word.place⟩

theorem Grammar.Dots.place {movement : Movement} (dots : Dots here movement there) :
    Dots (here.place distance after) movement (there.place distance after) := by
  cases dots with
  | one word => exact .one word.place
  | two word => exact .two word.place

theorem Grammar.Identifier.place {selector : Selector}
    (identifier : Identifier here selector there) :
    Identifier (here.place distance after) selector (there.place distance after) := by
  cases identifier with
  | star word => exact .star word.place
  | name letter parts word => exact .name letter parts word.place

theorem Grammar.Ending.place {last final : Step} {compared : Bool}
    (ending : Ending last here final compared there) (settled : Settled after here.rest) :
    Ending (last.shift distance) (here.place distance after) (final.shift distance) compared
      (there.place distance after) := by
  cases ending with
  | plain blanks => exact .plain blanks.place
  | compared blanks compares word read =>
    have settled' := settled.of_suffix blanks.follows.suffix
    exact .compared blanks.place (compares.append settled') word.place read
  | unread blanks compares word read =>
    have settled' := settled.of_suffix blanks.follows.suffix
    exact .unread blanks.place (compares.append settled') word.place read

theorem Cursor.place_rest {text : List Char} (before : here.rest = text) :
    (here.place distance after).rest = text ++ after := by
  rw [Cursor.place, before]

theorem Cursor.place_rest_ne_nil (some' : here.rest ≠ []) :
    (here.place distance after).rest ≠ [] :=
  List.append_ne_nil_of_left_ne_nil some' after

theorem anchor_place {first : Step} (anchored : anchor here = (first, there))
    (some' : here.rest ≠ []) :
    anchor (here.place distance after) = (first, there.place distance after) := by
  obtain ⟨c, rest, text⟩ := List.exists_cons_of_ne_nil some'
  have text' : (here.place distance after).rest = c :: (rest ++ after) := Cursor.place_rest text
  have one : (here.place distance after).advance 1 = (here.advance 1).place distance after :=
    Cursor.place_advance (by simp [text])
  rw [anchor, text] at anchored
  rw [anchor, text', one]
  by_cases root : c = '$'
  · subst root
    cases anchored
    rfl
  · by_cases current : c = '@'
    · subst current
      cases anchored
      rfl
    · simp only [List.cons.injEq, root, current, false_and, imp_self, implies_true] at anchored ⊢
      cases anchored
      rfl

variable {movement : Movement} {step : Step}

theorem identifier_place (found : identifier movement here = .ok (step, there))
    (edge : ∀ c, (there.place distance after).rest.head? = some c → isWordPart c = false) :
    identifier movement (here.place distance after) =
      .ok (step.shift distance, there.place distance after) := by
  obtain ⟨selector, written, rfl⟩ := identifier_sound found
  exact identifier_complete movement written.place edge

theorem QuotedKey.read_place {key : List Char} (found : QuotedKey.read here = .ok (key, there)) :
    QuotedKey.read (here.place distance after) = .ok (key, there.place distance after) := by
  obtain ⟨body, spells, word⟩ := QuotedKey.read_eq_ok_iff.mp found
  exact QuotedKey.read_eq_ok_iff.mpr ⟨body, spells, word.place⟩

/-! ## Accessors in place -/

variable {read read' : Step → Cursor → Except CompileError Parsed} {size : Nat}

theorem exists_head_of_dotted (found : dotted (query read) movement here = .ok (step, there)) :
    ∃ c rest, here.rest = c :: rest ∧ c ≠ '.' := by
  rw [dotted.eq_def] at found
  split at found
  · cases found
  · cases found
  · rename_i rest text
    exact ⟨'[', rest, text, by decide⟩
  · obtain ⟨selector, written, -⟩ := identifier_sound found
    obtain ⟨c, rest, text, -, dot, -⟩ := written.exists_head
    exact ⟨c, rest, text, dot⟩

variable (placed : ∀ last here parsed, read last here = .ok parsed →
    Closed parsed.compared (parsed.rest.place distance after) → Settled after here.rest →
    here.rest.length + after.length < size →
    read' (last.shift distance) (here.place distance after) = .ok (parsed.place distance after))

include placed

theorem query_place {parsed : Parsed} (found : query read here = .ok parsed)
    (closed : Closed parsed.compared (parsed.rest.place distance after))
    (settled : Settled after here.rest) (room : here.rest.length + after.length < size) :
    query read' (here.place distance after) = .ok (parsed.place distance after) := by
  obtain ⟨some', first, near, anchored, later, long⟩ := query_eq_ok_iff.mp found
  obtain ⟨movement, rfl, written⟩ := anchor_sound anchored
  have inside := written.follows.suffix
  have length := inside.length_le
  have read := placed _ near parsed later closed (settled.of_suffix inside) (by omega)
  refine query_eq_ok_iff.mpr ⟨Cursor.place_rest_ne_nil some', _, _, anchor_place anchored some', ?_⟩
  refine ⟨read, ?_⟩
  rwa [Parsed.place, List.length_map]

theorem filter_place (found : Compile.filter (query read) movement here = .ok (step, there))
    (settled : Settled after here.rest) (room : here.rest.length + after.length < size) :
    Compile.filter (query read') movement (here.place distance after) =
      .ok (step.shift distance, there.place distance after) := by
  rw [Compile.filter] at found
  obtain ⟨⟨steps, compared, stop⟩, inner, found⟩ := bind_eq_ok found
  split at found
  · rename_i close
    obtain ⟨rest, text⟩ := List.isPrefixOf_iff_prefix.mp close
    have closing : Word [')', ']'] stop (stop.advance 2) := word_advance text.symm
    have closing' : Word [')', ']'] (stop.place distance after)
        ((stop.advance 2).place distance after) := closing.place
    cases found
    by_cases mark : here.rest.head? = some '!'
    · obtain ⟨more, text⟩ := List.head?_eq_some_iff.mp mark
      have mark' : (here.place distance after).rest.head? = some '!' := by
        rw [Cursor.place_rest text, List.cons_append, List.head?_cons]
      have one : (here.place distance after).advance 1 = (here.advance 1).place distance after :=
        Cursor.place_advance (by simp [text])
      have inside : (here.advance 1).rest <:+ here.rest := List.drop_suffix 1 here.rest
      have length := inside.length_le
      rw [if_pos mark] at inner
      have inner' := query_place placed inner closing'.closed (settled.of_suffix inside) (by omega)
      rw [filter_of_read (by rwa [if_pos mark', one]) closing', if_pos mark', if_pos mark,
        ← map_shift_negateLast, ← Plan.shiftSteps_eq_map]
      rfl
    · rw [if_neg mark] at inner
      obtain ⟨c, rest, text⟩ := List.exists_cons_of_ne_nil (query_eq_ok_iff.mp inner).1
      have mark' : (here.place distance after).rest.head? ≠ some '!' := by
        simpa [Cursor.place, text] using mark
      have inner' := query_place placed inner closing'.closed settled room
      rw [filter_of_read (by rwa [if_neg mark']) closing', if_neg mark', if_neg mark,
        ← Plan.shiftSteps_eq_map]
      rfl
  · cases found

theorem bracket_place (found : bracket (query read) movement here = .ok (step, there))
    (settled : Settled after here.rest) (room : here.rest.length + after.length ≤ size) :
    bracket (query read') movement (here.place distance after) =
      .ok (step.shift distance, there.place distance after) := by
  rw [bracket] at found
  split at found
  · rename_i rest text
    cases found
    have three : (here.place distance after).advance 3 = (here.advance 3).place distance after :=
      Cursor.place_advance (by simp [text])
    rw [← three, bracket, Cursor.place, text]
    rfl
  · rename_i rest text
    obtain ⟨⟨key, stop⟩, inside, found⟩ := bind_eq_ok found
    cases found
    have two : (here.place distance after).advance 2 = (here.advance 2).place distance after :=
      Cursor.place_advance (by simp [text])
    have text' : (here.place distance after).rest = '[' :: '\'' :: (rest ++ after) :=
      Cursor.place_rest text
    rw [bracket, text']
    change (QuotedKey.read ((here.place distance after).advance 2) >>= _) = _
    rw [two, QuotedKey.read_place inside]
    rfl
  · rename_i rest text
    have three : (here.place distance after).advance 3 = (here.advance 3).place distance after :=
      Cursor.place_advance (by simp [text])
    have text' : (here.place distance after).rest = '[' :: '?' :: '(' :: (rest ++ after) :=
      Cursor.place_rest text
    have inside : (here.advance 3).rest <:+ here.rest := List.drop_suffix 3 here.rest
    have shorter : (here.advance 3).rest.length + 3 = here.rest.length := by
      simp [Cursor.advance, text]
    rw [bracket, text']
    change Compile.filter (query read') movement ((here.place distance after).advance 3) = _
    rw [three]
    exact filter_place placed found (settled.of_suffix inside) (by omega)
  · obtain ⟨negative, digits, some', digit, word, short, rfl⟩ := exists_digits_of_index found
    rw [bracket_index some' digit word.place]
    exact index_complete movement some' digit word.place short

theorem dotted_place (found : dotted (query read) movement here = .ok (step, there))
    (edge : ∀ c, (there.place distance after).rest.head? = some c → isWordPart c = false)
    (settled : Settled after here.rest) (room : here.rest.length + after.length ≤ size) :
    dotted (query read') movement (here.place distance after) =
      .ok (step.shift distance, there.place distance after) := by
  rw [dotted.eq_def] at found
  split at found
  · cases found
  · cases found
  · rename_i rest text
    have text' : (here.place distance after).rest = '[' :: (rest ++ after) := Cursor.place_rest text
    rw [dotted, text']
    exact bracket_place placed found settled room
  · obtain ⟨selector, written, rfl⟩ := identifier_sound found
    rw [dotted_identifier written.place]
    exact identifier_place found edge

theorem accessor?_place_dots {behind : Cursor} (dots : Dots here movement behind)
    (found : dotted (query read) movement behind.skipBlanks = .ok (step, there))
    (edge : ∀ c, (there.place distance after).rest.head? = some c → isWordPart c = false)
    (settled : Settled after here.rest) (room : here.rest.length + after.length ≤ size) :
    accessor? (query read') (here.place distance after) =
      .ok (some (step.shift distance, there.place distance after)) := by
  have blanks := blanks_skipBlanks behind
  have inside := (dots.follows.trans blanks.follows).suffix
  have length := inside.length_le
  have here' := dotted_place placed found edge (settled.of_suffix inside) (by omega)
  obtain ⟨c, rest, text, dot⟩ := exists_head_of_dotted found
  have filled := fresh_skipBlanks behind c (by rw [text, List.head?_cons])
  have text' : (behind.skipBlanks.place distance after).rest = c :: (rest ++ after) :=
    Cursor.place_rest text
  rw [accessor?_dots dots.place blanks.place text' filled dot, here']
  rfl

theorem accessor?_place (found : accessor? (query read) here = .ok (some (step, there)))
    (edge : ∀ c, (there.place distance after).rest.head? = some c → isWordPart c = false)
    (settled : Settled after here.rest) (room : here.rest.length + after.length ≤ size) :
    accessor? (query read') (here.place distance after) =
      .ok (some (step.shift distance, there.place distance after)) := by
  rw [accessor?.eq_def] at found
  split at found
  · rename_i rest text
    obtain ⟨pair, found, same⟩ := map_eq_ok found
    cases same
    have dots : Dots here .descendants (here.advance 2) :=
      .two (word_advance (text : here.rest = ['.', '.'] ++ rest))
    exact accessor?_place_dots placed dots found edge settled room
  · rename_i rest _ text
    obtain ⟨pair, found, same⟩ := map_eq_ok found
    cases same
    have dots : Dots here .children (here.advance 1) :=
      .one (word_advance (text : here.rest = ['.'] ++ rest))
    exact accessor?_place_dots placed dots found edge settled room
  · rename_i rest text
    obtain ⟨pair, found, same⟩ := map_eq_ok found
    cases same
    have text' : (here.place distance after).rest = '[' :: (rest ++ after) := Cursor.place_rest text
    rw [accessor?, text']
    change some <$> bracket (query read') .children (here.place distance after) = _
    rw [bracket_place placed found settled room]
    rfl
  · cases found

end Place

section Accessors

variable {distance : Nat} {after : List Char}

theorem accessors_place_accessor {fuel size : Nat}
    (placed : ∀ last here parsed, accessors fuel last here = .ok parsed →
      Closed parsed.compared (parsed.rest.place distance after) → Settled after here.rest →
      here.rest.length + after.length < size →
      accessors size (last.shift distance) (here.place distance after) =
        .ok (parsed.place distance after))
    {here there : Cursor} {last step : Step} {result : Parsed}
    (found : accessor? (query (accessors fuel)) here.skipBlanks = .ok (some (step, there)))
    (later : accessors size (step.shift distance) (there.place distance after) = .ok result)
    (closed : Closed result.compared result.rest)
    (settled : Settled after here.rest) (room : here.rest.length + after.length ≤ size) :
    accessors (size + 1) last (here.place distance after) =
      .ok { result with steps := last :: result.steps } := by
  have blanks := blanks_skipBlanks here
  have inside := blanks.follows.suffix
  have length := inside.length_le
  have edge := (accessors_sound size _ _ _ later).edge closed
  have accessor := accessor?_place placed found edge (settled.of_suffix inside) (by omega)
  exact accessors_of_accessor blanks.place accessor later

theorem accessors_place (fuel : Nat) :
    ∀ size last here parsed, accessors fuel last here = .ok parsed →
      Closed parsed.compared (parsed.rest.place distance after) → Settled after here.rest →
      here.rest.length + after.length < size →
      accessors size (last.shift distance) (here.place distance after) =
        .ok (parsed.place distance after) := by
  -- queries in filters are read with one unit less, so the hypothesis serves them too
  induction fuel with
  | zero =>
    intro size last here parsed found
    cases found
  | succ fuel ih =>
    intro size last here parsed found closed settled room
    obtain ⟨size, rfl⟩ := Nat.exists_eq_add_one_of_ne_zero (Nat.ne_zero_of_lt room)
    rcases accessors_eq_ok_iff.mp found with ⟨-, found⟩ | ⟨step, there, later, read, behind, rfl⟩
    · obtain ⟨final, only, ending⟩ := finish_sound found
      obtain ⟨outside, finished⟩ := finish_complete (ending.place settled) closed
      rw [Parsed.place, only]
      exact accessors_eq_ok_iff.mpr (.inl ⟨accessor?_none outside, finished⟩)
    · obtain ⟨further, shorter⟩ := accessor?_progress read
      have rest := ih size step there later behind closed (settled.of_suffix further) (by omega)
      exact accessors_place_accessor (ih size) read rest closed settled (by omega)

end Accessors

end PathQuery
