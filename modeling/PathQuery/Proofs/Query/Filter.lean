import PathQuery.Proofs.Query.Concat

/-!
# Filters where they stand

A text that is read up to the `)]` behind it (`Enclosed`) makes a filter behind
any step, with or without a mark of negation (`Enclosed.accessors`).  A bracket
stands behind blanks, dots and blanks again, and only where it opens a filter
does it read a query of its own (`accessor?_cases`, `bracket_cases`); all other
accessors are read alike wherever they stand (`accessor?_place_cases`).
-/

set_option autoImplicit false

namespace PathQuery

open Grammar Compile

/-- Between a query and a bracket that goes on with it stand blanks, and among them a dot or two. -/
inductive Grammar.Lead : List Char → Movement → Prop
  | plain {blanks : List Char} : (∀ c ∈ blanks, Text.isBlank c = true) → Lead blanks .children
  | dot {before behind : List Char} : (∀ c ∈ before, Text.isBlank c = true) →
      (∀ c ∈ behind, Text.isBlank c = true) → Lead (before ++ '.' :: behind) .children
  | dots {before behind : List Char} : (∀ c ∈ before, Text.isBlank c = true) →
      (∀ c ∈ behind, Text.isBlank c = true) → Lead (before ++ '.' :: '.' :: behind) .descendants

def Grammar.Leads (here : Cursor) (movement : Movement) (near : Cursor) : Prop :=
  movement = .children ∧ near = here ∨ ∃ behind, Dots here movement behind ∧ Blanks behind near

theorem Grammar.Lead.isAnchor_eq_false {lead : List Char} {movement : Movement}
    (leads : Lead lead movement) : movement.isAnchor = false := by
  cases leads <;> rfl

theorem Grammar.blanks_of_append {blanks rest : List Char}
    (blank : ∀ c ∈ blanks, Text.isBlank c = true) (offset : Nat) :
    Blanks ⟨offset, blanks ++ rest⟩ ⟨offset + blanks.length, rest⟩ :=
  ⟨blanks, blank, rfl, rfl⟩

theorem Grammar.Lead.leads {lead : List Char} {movement : Movement}
    (written : Lead lead movement) (offset : Nat) (rest : List Char) :
    ∃ near, Blanks ⟨offset, lead ++ '[' :: rest⟩ near ∧
      Leads near movement ⟨offset + lead.length, '[' :: rest⟩ := by
  cases written with
  | plain blank =>
    exact ⟨_, blanks_of_append blank offset, .inl ⟨rfl, rfl⟩⟩
  | @dot before behind blank blank' =>
    refine ⟨⟨offset + before.length, '.' :: (behind ++ '[' :: rest)⟩, ?_, ?_⟩
    · simpa using blanks_of_append blank offset
    · refine .inr ⟨⟨offset + before.length + 1, behind ++ '[' :: rest⟩, .one ⟨rfl, rfl⟩, ?_⟩
      refine ⟨behind, blank', rfl, ?_⟩
      simp only [List.length_append, List.length_cons]
      omega
  | @dots before behind blank blank' =>
    refine ⟨⟨offset + before.length, '.' :: '.' :: (behind ++ '[' :: rest)⟩, ?_, ?_⟩
    · simpa using blanks_of_append blank offset
    · refine .inr ⟨⟨offset + before.length + 2, behind ++ '[' :: rest⟩, .two ⟨rfl, rfl⟩, ?_⟩
      refine ⟨behind, blank', rfl, ?_⟩
      simp only [List.length_append, List.length_cons]
      omega

theorem Grammar.Leads.place {here near : Cursor} {movement : Movement} {distance : Nat}
    {after : List Char} (leads : Leads here movement near) :
    Leads (here.place distance after) movement (near.place distance after) := by
  rcases leads with ⟨rfl, rfl⟩ | ⟨behind, dots, blanks⟩
  · exact .inl ⟨rfl, rfl⟩
  · exact .inr ⟨behind.place distance after, dots.place, blanks.place⟩

theorem Grammar.Leads.follows {here near : Cursor} {movement : Movement}
    (leads : Leads here movement near) : Follows here near := by
  rcases leads with ⟨-, rfl⟩ | ⟨behind, dots, blanks⟩
  · exact Follows.refl _
  · exact dots.follows.trans blanks.follows

section Accessor

variable {inner : Cursor → Except CompileError Parsed} {here near there : Cursor}
  {movement : Movement} {step : Step}

theorem accessor?_of_leads (leads : Leads here movement near) {rest : List Char}
    (text : near.rest = '[' :: rest) :
    accessor? inner here = some <$> bracket inner movement near := by
  rcases leads with ⟨rfl, rfl⟩ | ⟨behind, dots, blanks⟩
  · rw [accessor?, text]
    rfl
  · rw [accessor?_dots dots blanks text (by decide) (by decide), dotted, text]
    rfl

theorem dotted_cases (found : dotted inner movement here = .ok (step, there)) :
    (∃ rest, here.rest = '[' :: rest) ∧ bracket inner movement here = .ok (step, there) ∨
      identifier movement here = .ok (step, there) := by
  rw [dotted.eq_def] at found
  split at found
  · cases found
  · cases found
  · rename_i rest text
    exact .inl ⟨⟨rest, text⟩, found⟩
  · exact .inr found

theorem accessor?_cases (found : accessor? inner here = .ok (some (step, there))) :
    (∃ movement near rest, Leads here movement near ∧ near.rest = '[' :: rest ∧
        bracket inner movement near = .ok (step, there)) ∨
      ∃ movement behind near, Dots here movement behind ∧ Blanks behind near ∧
        identifier movement near = .ok (step, there) := by
  have dotted : ∀ {movement : Movement} {behind : Cursor}, Dots here movement behind →
      some <$> dotted inner movement behind.skipBlanks = .ok (some (step, there)) →
      (∃ movement near rest, Leads here movement near ∧ near.rest = '[' :: rest ∧
          bracket inner movement near = .ok (step, there)) ∨
        ∃ movement behind near, Dots here movement behind ∧ Blanks behind near ∧
          identifier movement near = .ok (step, there) := by
    intro movement behind dots found
    obtain ⟨pair, found, same⟩ := map_eq_ok found
    cases same
    have blanks := blanks_skipBlanks behind
    rcases dotted_cases found with ⟨⟨rest, text⟩, found⟩ | found
    · exact .inl ⟨movement, _, rest, .inr ⟨behind, dots, blanks⟩, text, found⟩
    · exact .inr ⟨movement, behind, _, dots, blanks, found⟩
  rw [accessor?.eq_def] at found
  split at found
  · rename_i rest text
    exact dotted (.two (word_advance (text : here.rest = ['.', '.'] ++ rest))) found
  · rename_i rest _ text
    exact dotted (.one (word_advance (text : here.rest = ['.'] ++ rest))) found
  · rename_i rest text
    obtain ⟨pair, found, same⟩ := map_eq_ok found
    cases same
    exact .inl ⟨.children, here, rest, .inl ⟨rfl, rfl⟩, text, found⟩
  · cases found

theorem exists_read_of_filter (found : Compile.filter inner movement here = .ok (step, there)) :
    ∃ parsed, inner (if here.rest.head? = some '!' then here.advance 1 else here) = .ok parsed ∧
      Word [')', ']'] parsed.rest there ∧
      step = .filter movement
        (.mk (if here.rest.head? = some '!' then negateLast parsed.steps else parsed.steps)
          parsed.rest.offset) false := by
  rw [Compile.filter] at found
  obtain ⟨parsed, read, found⟩ := bind_eq_ok found
  split at found
  · rename_i close
    obtain ⟨rest, text⟩ := List.isPrefixOf_iff_prefix.mp close
    cases found
    refine ⟨parsed, ?_, word_advance text.symm, ?_⟩
    · simpa using read
    · simp
  · cases found

theorem bracket_cases (found : bracket inner movement here = .ok (step, there)) :
    (∃ rest, here.rest = '[' :: '?' :: '(' :: rest ∧
        Compile.filter inner movement (here.advance 3) = .ok (step, there)) ∨
      ∀ (inner' : Cursor → Except CompileError Parsed) (distance : Nat) (after : List Char),
        bracket inner' movement (here.place distance after) =
          .ok (step.shift distance, there.place distance after) := by
  rw [bracket] at found
  split at found
  · rename_i rest text
    cases found
    refine .inr fun inner' distance after => ?_
    have three : (here.place distance after).advance 3 = (here.advance 3).place distance after :=
      Cursor.place_advance (by simp [text])
    rw [← three, bracket, Cursor.place, text]
    rfl
  · rename_i rest text
    obtain ⟨⟨key, stop⟩, inside, found⟩ := bind_eq_ok found
    cases found
    refine .inr fun inner' distance after => ?_
    have two : (here.place distance after).advance 2 = (here.advance 2).place distance after :=
      Cursor.place_advance (by simp [text])
    have text' : (here.place distance after).rest = '[' :: '\'' :: (rest ++ after) :=
      Cursor.place_rest text
    rw [bracket, text']
    change (QuotedKey.read ((here.place distance after).advance 2) >>= _) = _
    rw [two, QuotedKey.read_place inside]
    rfl
  · rename_i rest text
    exact .inl ⟨rest, text, found⟩
  · obtain ⟨negative, digits, some', digit, word, short, rfl⟩ := exists_digits_of_index found
    refine .inr fun inner' distance after => ?_
    rw [bracket_index some' digit word.place]
    exact index_complete movement some' digit word.place short

theorem accessor?_place_cases (found : accessor? inner here = .ok (some (step, there))) :
    (∃ movement near rest, Leads here movement near ∧ near.rest = '[' :: '?' :: '(' :: rest ∧
        Compile.filter inner movement (near.advance 3) = .ok (step, there)) ∨
      ∀ (inner' : Cursor → Except CompileError Parsed) (distance : Nat) (after : List Char),
        (∀ c, (there.place distance after).rest.head? = some c → isWordPart c = false) →
        accessor? inner' (here.place distance after) =
          .ok (some (step.shift distance, there.place distance after)) := by
  rcases accessor?_cases found with
    ⟨movement, near, rest, leads, text, found⟩ | ⟨movement, behind, near, dots, blanks, found⟩
  · rcases bracket_cases found with ⟨rest, text, found⟩ | alone
    · exact .inl ⟨movement, near, rest, leads, text, found⟩
    · refine .inr fun inner' distance after _ => ?_
      have opens : (near.place distance after).rest = '[' :: (rest ++ after) :=
        Cursor.place_rest text
      rw [accessor?_of_leads leads.place opens, alone]
      rfl
  · refine .inr fun inner' distance after edge => ?_
    obtain ⟨selector, written, rfl⟩ := identifier_sound found
    obtain ⟨c, rest, text, filled, dot, -⟩ := written.exists_head
    have text' : (near.place distance after).rest = c :: (rest ++ after) :=
      Cursor.place_rest text
    rw [accessor?_dots dots.place blanks.place text' filled dot, dotted_identifier written.place,
      identifier_place found edge]
    rfl

theorem accessor?_filter_place (leads : Leads here movement near) {rest : List Char}
    (text : near.rest = '[' :: '?' :: '(' :: rest) (distance : Nat) (after : List Char) :
    accessor? inner (here.place distance after) =
      some <$> Compile.filter inner movement ((near.advance 3).place distance after) := by
  have opens : (near.place distance after).rest = '[' :: '?' :: '(' :: (rest ++ after) :=
    Cursor.place_rest text
  have three : (near.place distance after).advance 3 = (near.advance 3).place distance after :=
    Cursor.place_advance (by simp [text])
  rw [accessor?_of_leads leads.place opens, bracket, opens, ← three]
  rfl

end Accessor

theorem eq_or_prefix_of_prefix_close {front text : List Char}
    (inside : front ++ [')', ']'] <+: text ++ [')', ']']) :
    front = text ∨ front ++ [')', ']'] <+: text := by
  obtain ⟨rest, split⟩ := inside
  rcases List.eq_nil_or_concat rest with rfl | ⟨rest, c, rfl⟩
  · rw [List.append_nil, List.append_left_inj] at split
    exact .inl split
  rcases List.eq_nil_or_concat rest with rfl | ⟨rest, d, rfl⟩
  · have last := congrArg List.reverse split
    simp at last
  · have whole : (front ++ [')', ']'] ++ rest) ++ [d, c] = text ++ [')', ']'] := by
      simpa using split
    exact .inr ⟨rest, (List.append_inj' whole rfl).1⟩

/-! ## A query in a filter -/

def mark : Bool → String
  | true => "!"
  | false => ""

/-- The steps of the query in a filter, where it is marked or not. -/
def turned (negated : Bool) (steps : List Step) : List Step :=
  if negated then negateLast steps else steps

/-- A text is read as these steps behind `[?(`, up to the `)]` that follows it. -/
def Enclosed (text : String) (steps : List Step) : Prop :=
  ∃ size compared, query (accessors size) ⟨3, text.toList ++ [')', ']']⟩ =
    .ok ⟨steps, compared, ⟨3 + text.length, [')', ']']⟩⟩

section Enclosed

variable {text : String} {steps : List Step}

theorem Enclosed.read (enclosed : Enclosed text steps) (distance : Nat) {size : Nat}
    (room : text.length + 2 < size) :
    ∃ compared, query (accessors size) ⟨3 + distance, text.toList ++ [')', ']']⟩ =
      .ok ⟨steps.map (Step.shift distance), compared,
        ⟨3 + text.length + distance, [')', ']']⟩⟩ := by
  obtain ⟨fuel, compared, found⟩ := enclosed
  have closing : Closed compared ((⟨3 + text.length, [')', ']']⟩ : Cursor).place distance []) :=
    .inr (.inr (List.prefix_refl _))
  have inside : (text.toList ++ [')', ']']).length + ([] : List Char).length < size := by
    simpa [String.length_toList] using room
  have moved := query_place (accessors_place fuel size) found closing (.inl rfl) inside
  rw [Cursor.place_nil] at moved
  exact ⟨compared, moved⟩

theorem Enclosed.query (enclosed : Enclosed text steps) :
    ∃ compared, Query ⟨3, text.toList ++ [')', ']']⟩ steps compared
      ⟨3 + text.length, [')', ']']⟩ := by
  obtain ⟨size, compared, found⟩ := enclosed
  exact ⟨compared, query_sound (accessors_sound size) found⟩

theorem Enclosed.head_ne (enclosed : Enclosed text steps) :
    (text.toList ++ [')', ']']).head? ≠ some '!' := by
  obtain ⟨compared, query⟩ := enclosed.query
  exact query.head_ne

theorem Enclosed.filter (enclosed : Enclosed text steps) (negated : Bool) (movement : Movement)
    (distance : Nat) {size : Nat} (room : text.length + 2 < size) :
    ∃ stop there, Compile.filter (Compile.query (accessors size)) movement
        ⟨3 + distance, (mark negated).toList ++ (text.toList ++ [')', ']'])⟩ =
      .ok (.filter movement (.mk ((turned negated steps).map
        (Step.shift (distance + (mark negated).length))) stop) false, ⟨there, []⟩) := by
  have closing : ∀ offset : Nat, Word [')', ']'] ⟨offset, [')', ']']⟩ ⟨offset + 2, []⟩ :=
    fun offset => ⟨rfl, rfl⟩
  cases negated with
  | false =>
    obtain ⟨compared, found⟩ := enclosed.read distance room
    have plain : ((mark false).toList ++ (text.toList ++ [')', ']'])).head? ≠ some '!' :=
      enclosed.head_ne
    refine ⟨(3 + text.length + distance : Nat), 3 + text.length + distance + 2, ?_⟩
    rw [filter_of_read (by rw [if_neg plain]; exact found) (closing _), if_neg plain]
    rfl
  | true =>
    obtain ⟨compared, found⟩ := enclosed.read (distance + 1) room
    have marked : ((mark true).toList ++ (text.toList ++ [')', ']'])).head? = some '!' := rfl
    refine ⟨(3 + text.length + (distance + 1) : Nat), 3 + text.length + (distance + 1) + 2, ?_⟩
    rw [filter_of_read (by rw [if_pos marked]; exact found) (closing _), if_pos marked,
      ← map_shift_negateLast]
    rfl

end Enclosed

theorem accessors_of_ending {size : Nat} (some' : 0 < size) {last final : Step}
    {here there : Cursor} {compared : Bool} (ending : Ending last here final compared there)
    (closed : Closed compared there) :
    accessors size last here = .ok ⟨[final], compared, there⟩ := by
  obtain ⟨size, rfl⟩ := Nat.exists_eq_add_one_of_ne_zero (Nat.ne_of_gt some')
  obtain ⟨outside, finished⟩ := finish_complete ending closed
  exact accessors_eq_ok_iff.mpr (.inl ⟨accessor?_none outside, finished⟩)

theorem accessors_blank {size : Nat} (some' : 0 < size) (last : Step) {here : Cursor}
    (blank : ∀ c ∈ here.rest, Text.isBlank c = true) :
    accessors size last here = .ok ⟨[last], false, ⟨here.offset + here.rest.length, []⟩⟩ := by
  have word : Word here.rest here ⟨here.offset + here.rest.length, []⟩ :=
    ⟨(List.append_nil _).symm, rfl⟩
  exact accessors_of_ending some' (.plain ⟨here.rest, blank, word⟩) (.inr (.inl rfl))

theorem accessors_of_filter {lead inside : List Char} {movement : Movement}
    (written : Lead lead movement) {offset size : Nat} {step : Step} {there : Cursor}
    (found : Compile.filter (query (accessors size)) movement ⟨offset + lead.length + 3, inside⟩ =
      .ok (step, there))
    (blank : ∀ c ∈ there.rest, Text.isBlank c = true) (some' : 0 < size) (last : Step) :
    accessors (size + 1) last ⟨offset, lead ++ '[' :: '?' :: '(' :: inside⟩ =
      .ok ⟨[last, step], false, ⟨there.offset + there.rest.length, []⟩⟩ := by
  obtain ⟨near, blanks, leads⟩ := written.leads offset ('?' :: '(' :: inside)
  have read : accessor? (query (accessors size)) near = some <$> Compile.filter
      (query (accessors size)) movement ⟨offset + lead.length + 3, inside⟩ :=
    accessor?_of_leads leads rfl
  rw [found] at read
  exact accessors_of_accessor blanks read (accessors_blank some' step blank)

theorem Enclosed.accessors {text lead : String} {steps : List Step} {movement : Movement}
    (enclosed : Enclosed text steps) (negated : Bool) (leads : Lead lead.toList movement)
    (offset : Nat) {size : Nat}
    (room : (lead ++ "[?(" ++ mark negated ++ text ++ ")]").length < size) (last : Step) :
    ∃ stop there,
      Compile.accessors size last ⟨offset, (lead ++ "[?(" ++ mark negated ++ text ++ ")]").toList⟩ =
        .ok ⟨[last, .filter movement (.mk ((turned negated steps).map
          (Step.shift (offset + lead.length + (mark negated).length))) stop) false], false,
          ⟨there, []⟩⟩ := by
  obtain ⟨size, rfl⟩ := Nat.exists_eq_add_one_of_ne_zero (Nat.ne_zero_of_lt room)
  have long : text.length + 2 < size := by
    simp only [String.length_append] at room
    change lead.length + 3 + (mark negated).length + text.length + 2 < size + 1 at room
    omega
  obtain ⟨stop, there, found⟩ := enclosed.filter negated movement (offset + lead.length) long
  have opening : 3 + (offset + lead.length) = offset + lead.toList.length + 3 := by
    rw [String.length_toList]
    omega
  have split : (lead ++ "[?(" ++ mark negated ++ text ++ ")]").toList = lead.toList ++
      '[' :: '?' :: '(' :: ((mark negated).toList ++ (text.toList ++ [')', ']'])) := by
    simp
  rw [opening] at found
  rw [split]
  exact ⟨stop, there, accessors_of_filter leads found nofun (Nat.zero_lt_of_lt long) last⟩

theorem exists_filter_of_accessors {size offset : Nat} {last : Step} {rest : List Char}
    {parsed : Parsed}
    (read : accessors (size + 1) last ⟨offset, '[' :: '?' :: '(' :: rest⟩ = .ok parsed) :
    ∃ step there later,
      Compile.filter (query (accessors size)) .children ⟨offset + 3, rest⟩ = .ok (step, there) ∧
        accessors size step there = .ok later ∧
          parsed = { later with steps := last :: later.steps } := by
  rcases accessors_eq_ok_iff.mp read with ⟨none', -⟩ | ⟨step, there, later, found, behind, rfl⟩
  · change some <$> Compile.filter _ _ _ = _ at none'
    obtain ⟨pair, -, nothing⟩ := map_eq_ok none'
    cases nothing
  · change some <$> Compile.filter _ _ _ = _ at found
    obtain ⟨pair, found, same⟩ := map_eq_ok found
    cases same
    exact ⟨step, there, later, found, behind, rfl⟩

theorem eq_nil_of_blank {rest text : List Char} (inside : rest <:+ text ++ [')', ']'])
    (blank : ∀ c ∈ rest, Text.isBlank c = true) : rest = [] := by
  obtain ⟨front, whole⟩ := inside
  rcases List.eq_nil_or_concat rest with rfl | ⟨more, c, rfl⟩
  · rfl
  · have last := congrArg List.getLast? whole
    have closes : c = ']' := by simpa using last
    have filled := blank c (by simp)
    rw [closes] at filled
    cases filled

theorem blank_behind_filter {movement : Movement} {plan : Plan} {negated compared : Bool}
    {size : Nat} {here stop : Cursor} {only : Step}
    (found : accessors size (.filter movement plan negated) here = .ok ⟨[only], compared, stop⟩)
    (blank : ∀ c ∈ (stopOf ⟨[only], compared, stop⟩).rest, Text.isBlank c = true) :
    only = .filter movement plan negated ∧ ∀ c ∈ here.rest, Text.isBlank c = true := by
  have behind := accessors_sound size _ _ _ found
  cases behind with
  | ending ending =>
    cases ending with
    | plain blanks =>
      obtain ⟨between, filled, text, -⟩ := blanks
      refine ⟨rfl, ?_⟩
      rw [text]
      intro c listed
      exact (List.mem_append.mp listed).elim (filled c) (blank c)
  | accessor _ _ behind =>
    obtain ⟨_, _, front, _, final, -, -, -, none'⟩ := behind.exists_accessors
    simp at none'

theorem exists_filter_of_compile {rest : String} {plan : Plan}
    (compiled : compile ("[?(" ++ rest) = .ok plan) :
    ∃ size step there later,
      Compile.filter (query (accessors size)) .children ⟨3, rest.toList⟩ = .ok (step, there) ∧
        accessors size step there = .ok later ∧
          (∀ c ∈ (stopOf later).rest, Text.isBlank c = true) ∧
            plan.steps = .anchor .current :: later.steps := by
  obtain ⟨parsed, whole, blank, rfl⟩ := compile_eq_ok_iff_read.mp compiled
  have start : Cursor.start ("[?(" ++ rest) = ⟨0, '[' :: '?' :: '(' :: rest.toList⟩ := by
    simp [Cursor.start]
  rw [start] at whole
  obtain ⟨-, first, near, anchored, whole, -⟩ := query_eq_ok_iff.mp whole
  cases anchored
  obtain ⟨step, there, later, found, behind, rfl⟩ := exists_filter_of_accessors whole
  exact ⟨_, step, there, later, found, behind, blank, rfl⟩

theorem head?_append_close {text : String} (mark : Char) (other : mark ≠ ')') :
    (text ++ ")]").toList.head? = some mark ↔ text.toList.head? = some mark := by
  have split : (text ++ ")]").toList = text.toList ++ [')', ']'] := by simp
  rw [split]
  cases text.toList with
  | nil => simpa using other.symm
  | cons c rest => rfl

theorem head_ne_of_compile_marked {text : String} {plan : Plan}
    (compiled : compile ("[?(!" ++ text ++ ")]") = .ok plan) : text.toList.head? ≠ some '!' := by
  have split : "[?(!" ++ text ++ ")]" = "[?(" ++ ("!" ++ (text ++ ")]")) := by
    rw [← String.append_assoc, ← String.append_assoc]
    rfl
  have behind : ("!" ++ (text ++ ")]")).toList = '!' :: (text ++ ")]").toList := by
    simp
  rw [split] at compiled
  obtain ⟨size, step, there, later, found, -⟩ := exists_filter_of_compile compiled
  rw [behind] at found
  obtain ⟨parsed, read, -⟩ := exists_read_of_filter found
  rw [if_pos List.head?_cons] at read
  have head := (query_sound (accessors_sound size) read).head_ne
  exact fun marked => head ((head?_append_close '!' (by decide)).mpr marked)

theorem Enclosed.of_compile {text : String} {inner : Plan} {stop : Int}
    (compiled : compile ("[?(" ++ text ++ ")]") =
      .ok (.mk [.anchor .current, .filter .children inner false] stop))
    (unmarked : text.toList.head? ≠ some '!') : Enclosed text inner.steps := by
  rw [String.append_assoc] at compiled
  obtain ⟨size, step, there, ⟨steps, compared, last⟩, found, behind, blank, same⟩ :=
    exists_filter_of_compile compiled
  have plain : ¬ (text ++ ")]").toList.head? = some '!' :=
    fun marked => unmarked ((head?_append_close '!' (by decide)).mp marked)
  obtain ⟨⟨held, compared', ⟨offset, rest⟩⟩, read, closing, rfl⟩ := exists_read_of_filter found
  rw [if_neg plain] at read
  simp only [if_neg plain, Plan.steps, List.cons.injEq, true_and] at same behind
  subst same
  obtain ⟨same, blank'⟩ := blank_behind_filter behind blank
  cases same
  have whole : (text ++ ")]").toList = text.toList ++ [')', ']'] := by simp
  rw [whole] at read
  have further := (query_sound (accessors_sound size) read).follows
  have ends : there.rest = [] := eq_nil_of_blank (closing.suffix.trans further.suffix) blank'
  have left : rest = [')', ']'] ++ there.rest := closing.1
  rw [ends, List.append_nil] at left
  have length := further.offset_add_length
  simp only [left, List.length_append, String.length_toList, List.length_cons] at length
  have right : offset = 3 + text.length := by omega
  rw [left, right] at read
  exact ⟨size, compared', read⟩

end PathQuery
