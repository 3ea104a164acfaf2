import PathQuery.Proofs.Query.Grammar
import PathQuery.Proofs.Text.Delimited

/-!
# Blanks, names, indices and comparisons

The parts of a query that hold no query.  Each of them is read to its end, and
where it ends is seen from the next character; so each has a lemma that what is
read is what the grammar says, and a converse that may ask for what follows.
-/

set_option autoImplicit false

namespace PathQuery

open Grammar Compile

theorem isWordStart_iff (c : Char) : isWordStart c = true ↔ Letter c := by
  have upper : c.isUpper = decide ('A' ≤ c ∧ c ≤ 'Z') := rfl
  have lower : c.isLower = (decide ('a' ≤ c) && decide (c ≤ 'z')) := rfl
  have alpha : c.isAlpha = (c.isUpper || c.isLower) := rfl
  rw [isWordStart, alpha, upper, lower, Letter]
  simp [or_assoc]

theorem isDigit_iff (c : Char) : c.isDigit = true ↔ Digit c := by
  have digit : c.isDigit = (decide ('0' ≤ c) && decide (c ≤ '9')) := rfl
  rw [digit, Digit]
  simp

theorem isWordPart_iff (c : Char) : isWordPart c = true ↔ Letter c ∨ Digit c := by
  have split : isWordPart c = ((c.isAlpha || c.isDigit) || decide (c = '_')) := rfl
  rw [← isWordStart_iff, ← isDigit_iff, split, isWordStart]
  simp only [Bool.or_eq_true]
  exact or_right_comm

theorem isBlank_eq_false {c : Char} (low : 32 < c.toNat) (high : c.toNat < 127) :
    Text.isBlank c = false := by
  simp [Text.isBlank, Text.blankRanges]
  omega

theorem isBlank_of_isWordPart {c : Char} (part : isWordPart c = true) :
    Text.isBlank c = false := by
  have range : 48 ≤ c.toNat ∧ c.toNat ≤ 122 := by
    rcases (isWordPart_iff c).mp part with (⟨low, high⟩ | ⟨low, high⟩ | rfl) | ⟨low, high⟩
    · have low' : 65 ≤ c.toNat := low
      have high' : c.toNat ≤ 90 := high
      omega
    · have low' : 97 ≤ c.toNat := low
      have high' : c.toNat ≤ 122 := high
      omega
    · decide
    · have low' : 48 ≤ c.toNat := low
      have high' : c.toNat ≤ 57 := high
      omega
  exact isBlank_eq_false (by omega) (by omega)

def Fresh (text : List Char) : Prop := ∀ c, text.head? = some c → Text.isBlank c = false

theorem word_takeWhile (p : Char → Bool) (here : Cursor) :
    Word (here.rest.takeWhile p) here (here.advance (here.rest.takeWhile p).length) :=
  word_advance (List.takeWhile_append_dropWhile).symm

theorem blanks_skipBlanks (here : Cursor) : Blanks here here.skipBlanks :=
  ⟨here.rest.takeWhile Text.isBlank, fun _ => List.mem_takeWhile_imp, word_takeWhile _ here⟩

theorem fresh_skipBlanks (here : Cursor) : Fresh here.skipBlanks.rest := by
  intro c first
  have after : here.rest.dropWhile Text.isBlank = here.skipBlanks.rest := by
    have whole : here.rest.takeWhile Text.isBlank ++ here.rest.dropWhile Text.isBlank = here.rest :=
      List.takeWhile_append_dropWhile
    exact List.append_cancel_left (whole.trans (word_takeWhile Text.isBlank here).1)
  have stopped := List.head?_dropWhile_not Text.isBlank here.rest
  rw [after, first] at stopped
  exact stopped

theorem skipBlanks_eq {here there : Cursor} (between : Blanks here there)
    (fresh : Fresh there.rest) : here.skipBlanks = there := by
  obtain ⟨blanks, blank, word⟩ := between
  rw [Cursor.skipBlanks, word.1, takeWhile_append_eq blank fresh, ← word.eq_advance]

theorem Grammar.Blanks.head {here there : Cursor} (between : Blanks here there) {c : Char}
    (first : here.rest.head? = some c) :
    Text.isBlank c = true ∨ there.rest.head? = some c := by
  obtain ⟨blanks, blank, word⟩ := between
  rw [word.1] at first
  cases blanks with
  | nil => exact .inr first
  | cons d more =>
    cases first
    exact .inl (blank c (List.mem_cons_self ..))

theorem identifier_sound {movement : Movement} {here there : Cursor} {step : Step}
    (found : identifier movement here = .ok (step, there)) :
    ∃ selector, Identifier here selector there ∧
      step = .keyed movement (some selector) none false := by
  rw [identifier] at found
  split at found
  · rename_i more text
    cases found
    exact ⟨.wildcard, .star (word_advance (text : here.rest = ['*'] ++ more)), rfl⟩
  · rename_i first more _ text
    by_cases letter : isWordStart first = true
    · rw [if_pos letter] at found
      cases found
      have split : here.rest = first :: more.takeWhile isWordPart ++ more.dropWhile isWordPart := by
        rw [text, List.cons_append, List.takeWhile_append_dropWhile]
      refine ⟨_, .name ((isWordStart_iff first).mp letter) ?_ (word_advance split), rfl⟩
      intro c member
      exact (isWordPart_iff c).mp (List.mem_takeWhile_imp member)
    · rw [if_neg letter] at found
      cases found
  · cases found

theorem Grammar.Identifier.exists_head {here there : Cursor} {selector : Selector}
    (written : Identifier here selector there) :
    ∃ c rest, here.rest = c :: rest ∧ Text.isBlank c = false ∧ c ≠ '.' ∧ c ≠ '[' := by
  cases written with
  | star word => exact ⟨'*', _, word.1, by decide⟩
  | @name _ first more letter parts word =>
    have start := (isWordStart_iff first).mpr letter
    refine ⟨first, more ++ there.rest, word.1, ?_, ?_, ?_⟩
    · exact isBlank_of_isWordPart ((isWordPart_iff first).mpr (.inl letter))
    · intro same
      subst same
      cases start
    · intro same
      subst same
      cases start

theorem identifier_complete (movement : Movement) {here there : Cursor} {selector : Selector}
    (written : Identifier here selector there)
    (ends : ∀ c, there.rest.head? = some c → isWordPart c = false) :
    identifier movement here = .ok (.keyed movement (some selector) none false, there) := by
  cases written with
  | star word =>
    rw [word.eq_advance, identifier, word.1]
    rfl
  | @name _ first more letter parts word =>
    have taken : (more ++ there.rest).takeWhile isWordPart = more :=
      takeWhile_append_eq (fun c member => (isWordPart_iff c).mpr (parts c member)) ends
    have star : first ≠ '*' := by
      intro same
      subst same
      exact absurd ((isWordStart_iff '*').mpr letter) (by decide)
    rw [word.eq_advance, identifier, word.1, List.cons_append]
    split
    · rename_i more' same
      exact absurd (List.cons.inj same).1 star
    · rename_i first' more' _ same
      obtain ⟨rfl, rfl⟩ := List.cons.inj same
      rw [if_pos ((isWordStart_iff first).mpr letter), taken]
    · rename_i same
      cases same

theorem indexDigits?_sign (negative : Bool) {body : List Char}
    (unsigned : negative = false → body.head? ≠ some '-') :
    indexDigits? ('[' :: (sign negative ++ body)) =
      if !(body.takeWhile Char.isDigit).isEmpty &&
          (body.drop (body.takeWhile Char.isDigit).length).head? = some ']' then
        some (negative, body.takeWhile Char.isDigit)
      else none := by
  cases negative with
  | true => simp [indexDigits?, sign]
  | false => simp [indexDigits?, sign, unsigned rfl]

theorem exists_sign (rest : List Char) :
    ∃ negative body, rest = sign negative ++ body ∧
      (negative = false → body.head? ≠ some '-') := by
  by_cases minus : rest.head? = some '-'
  · obtain ⟨body, rfl⟩ := List.head?_eq_some_iff.mp minus
    exact ⟨true, body, rfl, nofun⟩
  · exact ⟨false, rest, rfl, fun _ => minus⟩

theorem indexDigits?_eq_some_iff {text : List Char} {negative : Bool} {digits : List Char} :
    indexDigits? text = some (negative, digits) ↔
      digits ≠ [] ∧ (∀ c ∈ digits, Digit c) ∧
        '[' :: (sign negative ++ digits ++ [']']) <+: text := by
  constructor
  · intro found
    rcases text with _ | ⟨c, rest⟩
    · cases found
    by_cases bracket : c = '['
    · subst bracket
      obtain ⟨sign', body, rfl, unsigned⟩ := exists_sign rest
      rw [indexDigits?_sign sign' unsigned] at found
      split at found
      · rename_i closed
        cases found
        rw [Bool.and_eq_true, decide_eq_true_eq] at closed
        obtain ⟨after, end'⟩ := List.head?_eq_some_iff.mp closed.2
        refine ⟨by simpa using closed.1, ?_, after, ?_⟩
        · intro c member
          exact (isDigit_iff c).mp (List.mem_takeWhile_imp member)
        · have run : body.takeWhile Char.isDigit <+: body := List.takeWhile_prefix _
          have whole := List.prefix_iff_eq_append.mp run
          rw [end'] at whole
          simp [whole]
      · cases found
    · simp [indexDigits?, bracket] at found
  · intro written
    obtain ⟨some', digit, after, rfl⟩ := written
    have run : (digits ++ ']' :: after).takeWhile Char.isDigit = digits := by
      apply takeWhile_append_eq
      · intro c member
        exact (isDigit_iff c).mpr (digit c member)
      · intro c first
        cases first
        decide
    have unsigned : negative = false → (digits ++ ']' :: after).head? ≠ some '-' := by
      intro _ minus
      cases digits with
      | nil => exact some' rfl
      | cons c more =>
        cases minus
        exact absurd ((isDigit_iff '-').mpr (digit '-' (by simp))) (by decide)
    have shape : '[' :: (sign negative ++ digits ++ [']']) ++ after =
        '[' :: (sign negative ++ (digits ++ ']' :: after)) := by simp
    rw [shape, indexDigits?_sign negative unsigned, run, if_pos]
    simpa using some'

theorem length_index (negative : Bool) (digits : List Char) :
    ('[' :: (sign negative ++ digits ++ [']'])).length =
      digits.length + if negative then 3 else 2 := by
  cases negative <;> simp [sign]

theorem exists_digits_of_index {movement : Movement} {here there : Cursor} {step : Step}
    (found : index movement here = .ok (step, there)) :
    ∃ negative digits, digits ≠ [] ∧ (∀ c ∈ digits, Digit c) ∧
      Word ('[' :: (sign negative ++ digits ++ [']'])) here there ∧
      digits.length ≤ Numeral.digitLimit ∧
      step = .keyed movement (some (.index (indexOf negative digits))) none false := by
  rw [index] at found
  split at found
  · cases found
  · rename_i negative digits read
    split at found
    · cases found
    · rename_i short
      obtain ⟨some', digit, after, text⟩ := indexDigits?_eq_some_iff.mp read
      have word := word_advance text.symm
      rw [length_index] at word
      cases found
      exact ⟨negative, digits, some', digit, word, Nat.le_of_not_lt short, rfl⟩

theorem index_sound {movement : Movement} {here there : Cursor} {step : Step}
    (found : index movement here = .ok (step, there)) : Bracket movement here step there := by
  obtain ⟨negative, digits, some', digit, word, -, rfl⟩ := exists_digits_of_index found
  exact .index negative some' digit word

theorem index_complete (movement : Movement) {here there : Cursor} {negative : Bool}
    {digits : List Char} (some' : digits ≠ []) (digit : ∀ c ∈ digits, Digit c)
    (word : Word ('[' :: (sign negative ++ digits ++ [']'])) here there)
    (short : digits.length ≤ Numeral.digitLimit) :
    index movement here =
      .ok (.keyed movement (some (.index (indexOf negative digits))) none false, there) := by
  have read : indexDigits? here.rest = some (negative, digits) :=
    indexDigits?_eq_some_iff.mpr ⟨some', digit, there.rest, word.1.symm⟩
  rw [index, read, word.eq_advance, length_index]
  simp only [if_neg (Nat.not_lt.mpr short)]
  rfl

def Ended (text literal : List Char) : Prop :=
  '\n' ∉ literal ∧ literal ++ [')', ']'] <+: text

theorem ended_cons_iff {c d : Char} {text literal : List Char} :
    Ended (c :: text) (d :: literal) ↔ d = c ∧ c ≠ '\n' ∧ Ended text literal := by
  simp only [Ended, List.mem_cons, not_or, List.cons_append, List.cons_prefix_cons]
  constructor
  · intro both
    obtain ⟨⟨line, rest⟩, rfl, ends⟩ := both
    exact ⟨rfl, fun same => line same.symm, rest, ends⟩
  · intro both
    obtain ⟨rfl, line, rest, ends⟩ := both
    exact ⟨⟨fun same => line same.symm, rest⟩, rfl, ends⟩

theorem ended_nil_iff {c : Char} {text : List Char} :
    Ended (c :: text) [] ↔ c = ')' ∧ text.head? = some ']' := by
  rcases text with _ | ⟨next, rest⟩
  · simp [Ended]
  · simp only [Ended, List.not_mem_nil, not_false_eq_true, true_and, List.nil_append,
      List.cons_prefix_cons, List.nil_prefix, and_true, List.head?_cons, Option.some.injEq]
    exact and_congr eq_comm eq_comm

theorem Ended.isPrefix {text literal : List Char} (ended : Ended text literal) :
    literal <+: text :=
  (List.prefix_append literal _).trans ended.2

theorem beforeFilterEnd?_sound {text literal : List Char}
    (found : beforeFilterEnd? text = some literal) :
    Ended text literal ∧ ∀ other, Ended text other → literal.length ≤ other.length := by
  induction text generalizing literal with
  | nil => cases found
  | cons c rest ih =>
    rw [beforeFilterEnd?] at found
    split at found
    · rename_i ends
      rw [Bool.and_eq_true, decide_eq_true_eq, decide_eq_true_eq] at ends
      cases found
      exact ⟨ended_nil_iff.mpr ends, fun other _ => Nat.zero_le _⟩
    · rename_i goes
      split at found
      · cases found
      · rename_i line
        obtain ⟨tail, later, rfl⟩ := Option.map_eq_some_iff.mp found
        obtain ⟨ended, least⟩ := ih later
        refine ⟨ended_cons_iff.mpr ⟨rfl, line, ended⟩, ?_⟩
        intro other ended'
        cases other with
        | nil => exact absurd (by simpa using ended_nil_iff.mp ended') goes
        | cons d more => exact Nat.succ_le_succ (least more (ended_cons_iff.mp ended').2.2)

theorem beforeFilterEnd?_complete {text other : List Char} (ended : Ended text other) :
    ∃ literal, beforeFilterEnd? text = some literal := by
  induction text generalizing other with
  | nil =>
    have nothing := List.prefix_nil.mp ended.2
    simp at nothing
  | cons c rest ih =>
    rw [beforeFilterEnd?]
    split
    · exact ⟨[], rfl⟩
    · rename_i goes
      cases other with
      | nil => exact absurd (by simpa using ended_nil_iff.mp ended) goes
      | cons d more =>
        obtain ⟨-, line, later⟩ := ended_cons_iff.mp ended
        obtain ⟨literal, found⟩ := ih later
        exact ⟨c :: literal, by rw [if_neg line, found]; rfl⟩

theorem literal?_sound {text literal : List Char} (found : literal? text = some literal) :
    literal ≠ [] ∧ Ended text literal ∧
      ∀ other, other ≠ [] → Ended text other → literal.length ≤ other.length := by
  cases text with
  | nil => cases found
  | cons c rest =>
    rw [literal?] at found
    split at found
    · cases found
    · rename_i line
      obtain ⟨tail, later, rfl⟩ := Option.map_eq_some_iff.mp found
      obtain ⟨ended, least⟩ := beforeFilterEnd?_sound later
      refine ⟨List.cons_ne_nil _ _, ended_cons_iff.mpr ⟨rfl, line, ended⟩, ?_⟩
      intro other some' ended'
      cases other with
      | nil => exact absurd rfl some'
      | cons d more => exact Nat.succ_le_succ (least more (ended_cons_iff.mp ended').2.2)

theorem literal?_complete {text other : List Char} (some' : other ≠ [])
    (ended : Ended text other) : ∃ literal, literal? text = some literal := by
  cases text with
  | nil =>
    have nothing := List.prefix_nil.mp ended.2
    simp at nothing
  | cons c rest =>
    cases other with
    | nil => exact absurd rfl some'
    | cons d more =>
      obtain ⟨-, line, later⟩ := ended_cons_iff.mp ended
      obtain ⟨literal, found⟩ := beforeFilterEnd?_complete later
      exact ⟨c :: literal, by rw [literal?, if_neg line, found]; rfl⟩

theorem cuts_iff {text : List Char} {op : Operator} {literal : List Char} :
    Cuts text op literal ↔ op ∈ operators text ∧ literal ≠ [] ∧
      Ended (text.drop op.symbol.length) literal := by
  rw [operators, List.mem_filter, List.isPrefixOf_iff_prefix, Cuts, Ended]
  constructor
  · intro cuts
    obtain ⟨some', line, after, rfl⟩ := cuts
    have shape : op.symbol.toList ++ literal ++ [')', ']'] ++ after =
        op.symbol.toList ++ (literal ++ [')', ']'] ++ after) := by simp
    rw [shape]
    refine ⟨⟨op.mem_all, _, rfl⟩, some', line, after, ?_⟩
    rw [← String.length_toList, List.drop_left]
  · intro both
    obtain ⟨⟨-, rest, rfl⟩, some', line, ends⟩ := both
    rw [← String.length_toList, List.drop_left] at ends
    refine ⟨some', line, ?_⟩
    rw [List.append_assoc, List.prefix_append_right_inj]
    exact ends

/-- Of two operators that a text can start with, the longer one comes first. -/
theorem pairwise_operators (text : List Char) :
    (operators text).Pairwise fun first second =>
      second.symbol.length < first.symbol.length := by
  have listed : Operator.all.Pairwise fun first second =>
      second.symbol.length < first.symbol.length ∨
        second.symbol.length = first.symbol.length ∧ second.symbol ≠ first.symbol := by decide
  rw [operators, List.pairwise_filter]
  refine listed.imp ?_
  intro first second either starts starts'
  rcases either with shorter | ⟨same, different⟩
  · exact shorter
  · rw [List.isPrefixOf_iff_prefix] at starts starts'
    rw [← String.length_toList, ← String.length_toList] at same
    have inside := List.prefix_of_prefix_length_le starts' starts (Nat.le_of_eq same)
    exact absurd (String.toList_inj.mp (inside.eq_of_length same)) different

theorem comparison?_sound {text : List Char} {op : Operator} {literal : List Char}
    (found : comparison? text = some (op, literal)) : Compares text op literal := by
  rw [comparison?, List.findSome?_eq_some_iff] at found
  obtain ⟨before, op', after, listed, here, none⟩ := found
  obtain ⟨literal', read, same⟩ := Option.map_eq_some_iff.mp here
  cases same
  obtain ⟨some', ended, least⟩ := literal?_sound read
  have order := pairwise_operators text
  rw [listed, List.pairwise_append, List.pairwise_cons] at order
  refine ⟨cuts_iff.mpr ⟨by simp [listed], some', ended⟩, ?_⟩
  intro other found cuts
  obtain ⟨member, some'', ended'⟩ := cuts_iff.mp cuts
  rw [listed, List.mem_append, List.mem_cons] at member
  rcases member with earlier | rfl | later
  · obtain ⟨literal', read'⟩ := literal?_complete some'' ended'
    have nothing := none other earlier
    rw [read'] at nothing
    cases nothing
  · exact .inr ⟨rfl, least found some'' ended'⟩
  · exact .inl (order.2.1.1 other later)

theorem Grammar.Compares.unique {text : List Char} {op other : Operator}
    {literal found : List Char} (compares : Compares text op literal)
    (compares' : Compares text other found) : op = other ∧ literal = found := by
  have least := compares.2 other found compares'.1
  have least' := compares'.2 op literal compares.1
  have same : op = other := by
    rcases least with shorter | equal
    · rcases least' with shorter' | equal
      · omega
      · exact equal.1
    · exact equal.1.symm
  subst same
  have length : literal.length = found.length := by
    rcases least with shorter | equal
    · omega
    · rcases least' with shorter | equal'
      · omega
      · exact Nat.le_antisymm equal.2 equal'.2
  have start := (cuts_iff.mp compares.1).2.2.isPrefix
  have start' := (cuts_iff.mp compares'.1).2.2.isPrefix
  have inside := List.prefix_of_prefix_length_le start start' (Nat.le_of_eq length)
  exact ⟨rfl, inside.eq_of_length length⟩

theorem Grammar.Cuts.exists_comparison {text : List Char} {op : Operator} {literal : List Char}
    (cuts : Cuts text op literal) : ∃ other found, comparison? text = some (other, found) := by
  obtain ⟨member, some', ended⟩ := cuts_iff.mp cuts
  obtain ⟨literal', read⟩ := literal?_complete some' ended
  cases found : comparison? text with
  | none =>
    rw [comparison?, List.findSome?_eq_none_iff] at found
    have nothing := found op member
    rw [read] at nothing
    cases nothing
  | some pair => exact ⟨pair.1, pair.2, rfl⟩

theorem comparison?_eq_some_iff {text : List Char} {op : Operator} {literal : List Char} :
    comparison? text = some (op, literal) ↔ Compares text op literal := by
  constructor
  · exact comparison?_sound
  · intro compares
    obtain ⟨other, literal', found⟩ := compares.1.exists_comparison
    obtain ⟨rfl, rfl⟩ := (comparison?_sound found).unique compares
    exact found

end PathQuery
