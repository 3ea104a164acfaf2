import PathQuery.Proofs.Json.RoundTrip
import PathQuery.Proofs.Text.Delimited

/-!
# Documents told apart

Different documents have different texts, also those that no text is read as,
with a key twice in one object or with more digits than are read
(`render_inj`).  The text of a value tells the value and its own end, if no word
goes on behind it (`told_chars`).  Of a string this is known from the lexer,
which makes one token of it and never takes a token back.
-/

set_option autoImplicit false

namespace PathQuery.Json

open Text Token Escape

theorem Token.Lexer.tokens_suffix_start (tokens : List Token) (c : Char) :
    tokens <:+ (start tokens c).tokens := by
  unfold start
  split
  · exact List.suffix_rfl
  split
  · exact List.suffix_rfl
  split
  · exact List.suffix_cons ..
  · exact List.suffix_rfl

theorem Token.Lexer.tokens_suffix_of_step {lexer next : Lexer} {c : Char}
    (steps : lexer.step c = some next) : lexer.tokens <:+ next.tokens := by
  obtain ⟨tokens, mode⟩ := lexer
  cases mode with
  | between =>
    cases steps
    exact tokens_suffix_start tokens c
  | word letters =>
    rw [step] at steps
    split at steps
    · obtain ⟨value, -, rfl⟩ := Option.map_eq_some_iff.mp steps
      exact (List.suffix_cons ..).trans (tokens_suffix_start _ c)
    · cases steps
      exact List.suffix_rfl
  | string units =>
    rw [step] at steps
    repeat' split at steps
    all_goals cases steps
    · exact List.suffix_cons ..
    all_goals exact List.suffix_rfl
  | escape units =>
    rw [step] at steps
    split at steps
    · cases steps
      exact List.suffix_rfl
    · obtain ⟨unit, -, rfl⟩ := Option.map_eq_some_iff.mp steps
      exact List.suffix_rfl
  | hex units value missing =>
    obtain ⟨digit, -, rfl⟩ := Option.map_eq_some_iff.mp steps
    split <;> exact List.suffix_rfl

theorem Token.Lexer.tokens_suffix_of_foldlM {text : List Char} {lexer next : Lexer}
    (reads : text.foldlM step lexer = some next) : lexer.tokens <:+ next.tokens := by
  induction text generalizing lexer with
  | nil =>
    cases reads
    exact List.suffix_rfl
  | cons c text ih =>
    rw [List.foldlM_cons] at reads
    obtain ⟨middle, first, later⟩ := Option.bind_eq_some_iff.mp reads
    exact (tokens_suffix_of_step first).trans (ih later)

variable {ascii : Bool}

theorem foldlM_stringText_plain (value : String) (before : List Token) :
    (stringText ascii value).foldlM Lexer.step ⟨before, .between⟩ =
      some ⟨.text value :: before, .between⟩ := by
  have reads := @foldlM_stringText before ascii false value
  have plain : (stringText ascii value).flatMap (slashText false) = stringText ascii value :=
    List.flatMap_singleton' _
  rwa [plain] at reads

theorem eq_of_stringText_isPrefix {value other : String}
    (start : stringText ascii value <+: stringText ascii other) : value = other := by
  obtain ⟨rest, whole⟩ := start
  have reads := @foldlM_stringText_plain ascii other []
  rw [← whole, List.foldlM_append, foldlM_stringText_plain] at reads
  -- the token of the shorter text is still there when the longer one has been read
  have kept : [Token.text value] <:+ [Token.text other] := Lexer.tokens_suffix_of_foldlM reads
  cases kept.eq_of_length rfl
  rfl

theorem stringText_append_inj {value other : String} {rest rest' : List Char}
    (same : stringText ascii value ++ rest = stringText ascii other ++ rest') :
    value = other ∧ rest = rest' := by
  have starts := List.prefix_append (stringText ascii value) rest
  rw [same] at starts
  have strings : value = other := by
    rcases List.prefix_or_prefix_of_prefix starts (List.prefix_append _ rest') with first | second
    · exact eq_of_stringText_isPrefix first
    · exact (eq_of_stringText_isPrefix second).symm
  subst strings
  exact ⟨rfl, List.append_cancel_left same⟩

def opening : Json → Option Char
  | .str _ => some '"'
  | .arr _ => some '['
  | .obj _ => some '{'
  | _ => none

theorem isPart_of_mem_chars {value : Json} (word : value.opening = none) {c : Char}
    (listed : c ∈ chars (Escape.stringText ascii) value) : Numeral.isPart c = true := by
  have parts : ∀ text : String, text.toList.all Numeral.isPart = true → c ∈ text.toList →
      Numeral.isPart c = true := fun _ letters listed => List.all_eq_true.mp letters c listed
  cases value with
  | null => exact parts "null" (by decide) listed
  | bool value =>
    cases value with
    | true => exact parts "true" (by decide) listed
    | false => exact parts "false" (by decide) listed
  | num value => exact Numeral.isPart_of_mem_chars listed
  | _ => cases word

theorem exists_head_of_chars (ascii : Bool) (value : Json) :
    ∃ c more, chars (Escape.stringText ascii) value = c :: more ∧
      value.opening = if Numeral.isPart c then none else some c := by
  cases word : value.opening with
  | none =>
    have some' : chars (Escape.stringText ascii) value ≠ [] := by
      cases value with
      | null => exact List.cons_ne_nil _ _
      | bool value => cases value <;> exact List.cons_ne_nil _ _
      | num value => exact Numeral.chars_ne_nil value
      | _ => cases word
    obtain ⟨c, more, shape⟩ := List.exists_cons_of_ne_nil some'
    have part := @isPart_of_mem_chars ascii value word c (by rw [shape]; exact List.mem_cons_self ..)
    exact ⟨c, more, shape, by rw [part]; rfl⟩
  | some c =>
    cases value with
    | str value => cases word; exact ⟨_, _, rfl, rfl⟩
    | arr elements => cases word; exact ⟨_, _, rfl, rfl⟩
    | obj members => cases word; exact ⟨_, _, rfl, rfl⟩
    | _ => cases word

theorem opening_eq_of_append_eq {value other : Json} {rest rest' : List Char}
    (same : chars (Escape.stringText ascii) value ++ rest = chars (Escape.stringText ascii) other ++ rest') :
    value.opening = other.opening := by
  obtain ⟨c, more, shape, opens⟩ := exists_head_of_chars ascii value
  obtain ⟨d, more', shape', opens'⟩ := exists_head_of_chars ascii other
  rw [shape, shape', List.cons_append, List.cons_append] at same
  rw [opens, opens', (List.cons.inj same).1]

theorem chars_append_ne {close : Char} (closes : close = ']' ∨ close = '}') (value : Json)
    (rest rest' : List Char) : chars (Escape.stringText ascii) value ++ rest ≠ close :: rest' := by
  obtain ⟨c, more, shape, opens⟩ := exists_head_of_chars ascii value
  rw [shape]
  intro same
  obtain rfl : c = close := (List.cons.inj same).1
  rcases closes with rfl | rfl <;> cases value <;> cases opens

/-- A word is a whole number, or it is read as what it stands for and shows that it is none. -/
theorem word_cases {value : Json} (word : value.opening = none) :
    (∃ position, value = .num (.int position)) ∨ scalar? (chars (Escape.stringText ascii) value) = some value ∧
      ∃ c ∈ chars (Escape.stringText ascii) value, ¬ (c.isDigit = true ∨ c = '-') := by
  cases value with
  | null => exact .inr ⟨rfl, 'n', by simp [chars], by decide⟩
  | bool value =>
    cases value with
    | true => exact .inr ⟨rfl, 't', by simp [chars], by decide⟩
    | false => exact .inr ⟨rfl, 'f', by simp [chars], by decide⟩
  | num value =>
    cases value with
    | int value => exact .inl ⟨value, rfl⟩
    | float value =>
      exact .inr ⟨@scalar?_chars (.float value) trivial, Numeral.exists_mem_chars_float value⟩
  | _ => cases word

theorem word_inj {value other : Json} (word : value.opening = none) (word' : other.opening = none)
    (same : chars (Escape.stringText ascii) value = chars (Escape.stringText ascii) other) : value = other := by
  rcases @word_cases ascii value word with ⟨size, rfl⟩ | ⟨read, c, listed, shown⟩
  · rcases @word_cases ascii other word' with ⟨size', rfl⟩ | ⟨-, c, listed, shown⟩
    · rw [Numeral.intChars_inj same]
    · rw [← same] at listed
      exact (shown (Numeral.digit_or_minus_of_mem_intChars listed)).elim
  · rcases @word_cases ascii other word' with ⟨size', rfl⟩ | ⟨read', -⟩
    · rw [same] at listed
      exact (shown (Numeral.digit_or_minus_of_mem_intChars listed)).elim
    · rw [same, read', Option.some.injEq] at read
      exact read.symm

theorem elementsChars_eq_intercalate (elements : List Json) :
    elementsChars (Escape.stringText ascii) elements = [','].intercalate (elements.map (chars (Escape.stringText ascii))) := by
  induction elements with
  | nil => rfl
  | cons value rest ih =>
    cases rest with
    | nil => simp [elementsChars]
    | cons next rest =>
      rw [elementsChars, ih]
      simp [List.intercalate_cons_cons]

def memberChars (ascii : Bool) (member : String × Json) : List Char :=
  stringText ascii member.1 ++ ':' :: chars (Escape.stringText ascii) member.2

theorem membersChars_eq_intercalate (members : List (String × Json)) :
    membersChars (Escape.stringText ascii) members = [','].intercalate (members.map (memberChars ascii)) := by
  induction members with
  | nil => rfl
  | cons member rest ih =>
    cases rest with
    | nil => simp [membersChars, memberChars]
    | cons next rest =>
      rw [membersChars, ih]
      simp [List.intercalate_cons_cons, memberChars]

theorem told_memberChars {member : String × Json}
    (told : Told (Breaks Numeral.isPart) (chars (Escape.stringText ascii)) member.2) :
    Told (Breaks Numeral.isPart) (memberChars ascii) member := by
  intro other rest rest' breaks breaks' same
  rw [memberChars, memberChars, List.append_assoc, List.append_assoc] at same
  obtain ⟨keys, values⟩ := stringText_append_inj same
  obtain ⟨values, rests⟩ := told _ _ _ breaks breaks' (List.cons.inj values).2
  exact ⟨Prod.ext keys values, rests⟩

theorem told_chars (ascii : Bool) (value : Json) :
    Told (Breaks Numeral.isPart) (chars (Escape.stringText ascii)) value := by
  induction value using kindInduction with
  | scalar value scalar =>
    intro other rest rest' breaks breaks' same
    have openings := opening_eq_of_append_eq same
    cases word : value.opening with
    | none =>
      have word' : other.opening = none := by rw [← openings, word]
      obtain ⟨words, rests⟩ := run_append_inj (fun c => isPart_of_mem_chars word)
        (fun c => isPart_of_mem_chars word') breaks breaks' same
      exact ⟨word_inj word word' words, rests⟩
    | some c =>
      cases value with
      | str value =>
        cases other with
        | str other =>
          obtain ⟨strings, rests⟩ := stringText_append_inj same
          exact ⟨by rw [strings], rests⟩
        | _ => cases openings
      | arr elements => cases scalar
      | obj members => cases scalar
      | _ => cases word
  | arr elements ih =>
    intro other rest rest' breaks breaks' same
    cases other with
    | arr others =>
      rw [chars, chars, List.cons_append, List.append_assoc, elementsChars_eq_intercalate,
        List.cons_append, List.append_assoc, elementsChars_eq_intercalate] at same
      obtain ⟨lists, rests⟩ := intercalate_append_inj (breaks_cons rfl)
        (fun rest => breaks_cons rfl rest) (fun _ _ => by simp) (chars_append_ne (.inl rfl)) ih
        (List.cons.inj same).2
      exact ⟨by rw [lists], rests⟩
    | _ => cases opening_eq_of_append_eq same
  | obj members ih =>
    intro other rest rest' breaks breaks' same
    cases other with
    | obj others =>
      rw [chars, chars, List.cons_append, List.append_assoc, membersChars_eq_intercalate,
        List.cons_append, List.append_assoc, membersChars_eq_intercalate] at same
      obtain ⟨lists, rests⟩ := intercalate_append_inj (breaks_cons rfl)
        (fun rest => breaks_cons rfl rest) (fun _ _ => by simp) (fun member rest rest' same => by
          cases (List.cons.inj same).1)
        (fun member listed => told_memberChars (ih member listed)) (List.cons.inj same).2
      exact ⟨by rw [lists], rests⟩
    | _ => cases opening_eq_of_append_eq same

end PathQuery.Json
