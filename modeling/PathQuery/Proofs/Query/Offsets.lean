import PathQuery.Proofs.Query.Failure

/-!
# Offsets

What is read of a query ends behind the place where reading it began
(`Ahead`), and a fault lies at a place of the text (`FaultBehind`).  The plans
in the filters of a plan come one behind the other, each in front of the `)]`
that ends its filter (`Spaced`), so their stops increase, and the plan around
them stops behind them all.  This holds on every level of a compiled plan, and
behind its own stop only blanks are left (`compile_offsets`).
-/

set_option autoImplicit false

namespace PathQuery

open Grammar Compile

/-- The second place comes behind the first in the same text, and is another one. -/
def Ahead (here there : Cursor) : Prop := Follows here there ∧ here.offset < there.offset

namespace Grammar

theorem Follows.offset_le {here there : Cursor} (follows : Follows here there) :
    here.offset ≤ there.offset := by
  obtain ⟨word, -, offset⟩ := follows
  omega

theorem Follows.ahead {here there : Cursor} (follows : Follows here there)
    (shorter : there.rest.length < here.rest.length) : Ahead here there := by
  have ends := follows.offset_add_length
  exact ⟨follows, by omega⟩

theorem Follows.drop_offset {text : String} {there : Cursor}
    (follows : Follows (Cursor.start text) there) :
    text.toList.drop there.offset = there.rest := by
  obtain ⟨word, whole, offset⟩ := follows
  have start : (Cursor.start text).rest = text.toList := rfl
  have place : there.offset = word.length := offset.trans (Nat.zero_add _)
  rw [← start, whole, place, List.drop_left]

theorem Follows.offset_le_length {text : String} {there : Cursor}
    (follows : Follows (Cursor.start text) there) : there.offset ≤ text.length := by
  have ends := follows.offset_add_length
  have start : (Cursor.start text).rest = text.toList := rfl
  have zero : (Cursor.start text).offset = 0 := rfl
  rw [start, zero, String.length_toList] at ends
  omega

theorem Identifier.length_lt {here there : Cursor} {selector : Selector}
    (identifier : Identifier here selector there) : there.rest.length < here.rest.length := by
  cases identifier with
  | star word => exact word.length_lt
  | name _ _ word => exact word.length_lt

theorem Query.length_lt {here there : Cursor} {steps : List Step} {compared : Bool}
    (query : Query here steps compared there) : there.rest.length < here.rest.length := by
  cases query with
  | @mk _ _ _ _ _ front last _ _ anchor accessors ending =>
    have first := anchor.follows.suffix.length_le
    have third := ending.follows.suffix.length_le
    cases taken : front ++ [last] with
    | nil => simp at taken
    | cons step steps =>
      rw [taken] at accessors
      cases accessors with
      | cons blanks accessor accessors =>
        have second := blanks.follows.suffix.length_le
        have shorter := accessor.length_lt
        have rest := accessors.follows.suffix.length_le
        omega

end Grammar

def Advances {α : Type} (read : Cursor → Except CompileError (α × Cursor)) : Prop :=
  ∀ here result there, read here = .ok (result, there) → Ahead here there

theorem advances_identifier (movement : Movement) : Advances (identifier movement) := by
  intro here step there found
  obtain ⟨selector, written, -⟩ := identifier_sound found
  exact written.follows.ahead written.length_lt

theorem advances_quotedKey : Advances QuotedKey.read := by
  intro here key there found
  obtain ⟨body, -, word⟩ := QuotedKey.read_eq_ok_iff.mp found
  refine word.follows.ahead ?_
  rw [word.1, List.length_append, List.length_append]
  exact Nat.lt_add_of_pos_left (Nat.add_pos_right _ Nat.two_pos)

theorem query_ahead {fuel : Nat} {here : Cursor} {parsed : Parsed}
    (found : query (accessors fuel) here = .ok parsed) : Ahead here parsed.rest := by
  have written := query_sound (accessors_sound fuel) found
  exact written.follows.ahead written.length_lt

theorem advances_bracket (fuel : Nat) (movement : Movement) :
    Advances (bracket (query (accessors fuel)) movement) := by
  intro here step there found
  have written := bracket_sound (fun _ _ => query_sound (accessors_sound fuel)) found
  exact written.follows.ahead written.length_lt

theorem finish_ahead {last : Step} {here : Cursor} {parsed : Parsed}
    (found : finish last here = .ok parsed) :
    Ahead here parsed.rest ∨
      comparison? here.rest = none ∧ parsed.rest = here ∧ parsed.steps = [last] := by
  rw [finish] at found
  split at found
  · rename_i nothing
    cases found
    exact .inr ⟨nothing, rfl, rfl⟩
  · rename_i op literal read
    obtain ⟨-, -, after, text⟩ := (comparison?_eq_some_iff.mp read).1
    rw [List.append_assoc] at text
    have word := word_advance text.symm
    rw [List.length_append, String.length_toList] at word
    obtain ⟨c, symbol, written, -, -⟩ := op.exists_symbol_eq_cons
    cases last with
    | filter movement plan negated => cases found
    | keyed movement selector comparison negated =>
      cases found
      rw [written] at word
      exact .inl (word.follows.ahead word.length_lt)

/-! ## Where faults lie -/

/-- If reading fails by a fault of the text, the fault lies at the place or behind it. -/
def FaultBehind {α : Type} (here : Cursor) (result : Except CompileError α) : Prop :=
  ∀ position reason, result = .error (.malformed position reason) →
    ∃ there, Follows here there ∧ there.offset = position

namespace FaultBehind

variable {α β : Type} {here there : Cursor}

theorem ok (value : α) : FaultBehind here (.ok value) := nofun

theorem overlong (digits : Nat) :
    FaultBehind here (.error (.overlongIndex digits) : Except CompileError α) := nofun

theorem fail (follows : Follows here there) (reason : Reason) :
    FaultBehind here (Compile.fail there reason : Except CompileError α) := by
  intro position reason' failed
  cases failed
  exact ⟨there, follows, rfl⟩

theorem start (reason : Reason) :
    FaultBehind here (Compile.fail here reason : Except CompileError α) :=
  fail (Follows.refl here) reason

theorem of_follows {result : Except CompileError α} (behind : FaultBehind there result)
    (follows : Follows here there) : FaultBehind here result := by
  intro position reason failed
  obtain ⟨place, further, same⟩ := behind position reason failed
  exact ⟨place, follows.trans further, same⟩

theorem bind {result : Except CompileError α} {next : α → Except CompileError β}
    (first : FaultBehind here result)
    (second : ∀ value, result = .ok value → FaultBehind here (next value)) :
    FaultBehind here (result >>= next) := by
  intro position reason failed
  rcases bind_eq_error failed with failed | ⟨value, read, failed⟩
  · exact first position reason failed
  · exact second value read position reason failed

theorem map {result : Except CompileError α} {change : α → β} (first : FaultBehind here result) :
    FaultBehind here (change <$> result) :=
  fun position reason failed => first position reason (map_eq_error failed)

end FaultBehind

section Leaves

variable (movement : Movement) (here : Cursor)

theorem faultBehind_identifier : FaultBehind here (identifier movement here) := by
  rw [identifier.eq_def]
  split
  · exact .ok _
  · dsimp only
    split
    · exact .ok _
    · exact .start _
  · exact .start _

theorem faultBehind_quotedKey : FaultBehind here (QuotedKey.read here) := by
  rw [QuotedKey.read_eq_decode]
  suffices behind : ∀ (offset : Nat) (text : List Char),
      FaultBehind ⟨offset, text⟩ (QuotedKey.decode offset text) from behind _ _
  intro offset text
  have one : ∀ {offset : Nat} {c : Char} {rest : List Char},
      Follows ⟨offset, c :: rest⟩ ⟨offset + 1, rest⟩ := fun {_ c _} => ⟨[c], rfl, rfl⟩
  induction offset, text using QuotedKey.decode.induct with
  | case1 offset =>
    rw [QuotedKey.decode]
    exact .start _
  | case2 offset =>
    rw [QuotedKey.decode, if_pos rfl]
    exact .start _
  | case3 offset c quote =>
    rw [QuotedKey.decode, if_neg quote]
    exact .fail one _
  | case4 offset next rest =>
    rw [QuotedKey.decode, if_pos rfl, QuotedKey.close.eq_def]
    split
    · exact .ok _
    · exact .start _
  | case5 offset c next rest quote escape ih =>
    rw [QuotedKey.decode, if_neg quote, if_pos escape]
    exact (ih.of_follows (one.trans one)).map
  | case6 offset c next rest quote escape ih =>
    rw [QuotedKey.decode, if_neg quote, if_neg escape]
    exact (ih.of_follows one).map

theorem faultBehind_index : FaultBehind here (index movement here) := by
  rw [index]
  split
  · exact .start _
  · split
    · exact .overlong _
    · exact .ok _

theorem faultBehind_finish (last : Step) : FaultBehind here (finish last here) := by
  rw [finish]
  split
  · exact .ok _
  · split
    · exact .start _
    · exact .ok _

end Leaves

section Inner

variable {inner : Cursor → Except CompileError Parsed}
  (behind : ∀ here, FaultBehind here (inner here))
  (reads : ∀ here parsed, inner here = .ok parsed → Follows here parsed.rest)
  (movement : Movement) (here : Cursor)

include behind reads

theorem faultBehind_filter : FaultBehind here (Compile.filter inner movement here) := by
  have start : Follows here (if here.rest.head? = some '!' then here.advance 1 else here) := by
    split
    · rename_i mark
      obtain ⟨more, text⟩ := List.head?_eq_some_iff.mp mark
      have word : Word ['!'] here (here.advance 1) := word_advance text
      exact word.follows
    · exact Follows.refl here
  rw [Compile.filter]
  refine .bind ((behind _).of_follows start) fun parsed read => ?_
  split
  · exact .ok _
  · exact .fail (start.trans (reads _ _ read)) _

theorem faultBehind_bracket : FaultBehind here (bracket inner movement here) := by
  rw [bracket.eq_def]
  split
  · exact .ok _
  · rename_i rest text
    have opening : Word ['[', '\''] here (here.advance 2) := word_advance text
    exact .bind ((faultBehind_quotedKey _).of_follows opening.follows) fun _ _ => .ok _
  · rename_i rest text
    have opening : Word ['[', '?', '('] here (here.advance 3) := word_advance text
    exact (faultBehind_filter behind reads movement _).of_follows opening.follows
  · exact faultBehind_index movement here

theorem faultBehind_dotted : FaultBehind here (dotted inner movement here) := by
  rw [dotted.eq_def]
  split
  · exact .start _
  · exact .start _
  · exact faultBehind_bracket behind reads movement here
  · exact faultBehind_identifier movement here

theorem faultBehind_accessor? : FaultBehind here (accessor? inner here) := by
  have dots : ∀ {movement : Movement} {near : Cursor}, Follows here near →
      FaultBehind here (some <$> dotted inner movement near.skipBlanks) := by
    intro movement near follows
    have blanks := (blanks_skipBlanks near).follows
    exact ((faultBehind_dotted behind reads movement _).of_follows (follows.trans blanks)).map
  rw [accessor?.eq_def]
  split
  · rename_i rest text
    have opening : Word ['.', '.'] here (here.advance 2) := word_advance text
    exact dots opening.follows
  · rename_i rest _ text
    have opening : Word ['.'] here (here.advance 1) := word_advance text
    exact dots opening.follows
  · exact (faultBehind_bracket behind reads .children here).map
  · exact .ok _

end Inner

theorem faultBehind_query {read : Step → Cursor → Except CompileError Parsed}
    (behind : ∀ last here, FaultBehind here (read last here))
    (reads : ∀ last here parsed, read last here = .ok parsed → Follows here parsed.rest)
    (here : Cursor) : FaultBehind here (query read here) := by
  rw [query]
  split
  · exact .start _
  · obtain ⟨movement, -, written⟩ := anchor_sound (rfl : anchor here = (_, _))
    refine .bind ((behind _ _).of_follows written.follows) fun parsed found => ?_
    split
    · exact .fail (written.follows.trans (reads _ _ _ found)) _
    · exact .ok _

theorem accessors_follows {fuel : Nat} {last : Step} {here : Cursor} {parsed : Parsed}
    (found : accessors fuel last here = .ok parsed) : Follows here parsed.rest := by
  obtain ⟨taken, stop, front, final, ended, accessors, -, ending, -⟩ :=
    (accessors_sound fuel last here parsed found).exists_accessors
  exact accessors.follows.trans ending.follows

theorem faultBehind_accessors (fuel : Nat) :
    ∀ last here, FaultBehind here (accessors fuel last here) := by
  induction fuel with
  | zero => exact fun last here => .start _
  | succ fuel ih =>
    intro last here
    have blanks := (blanks_skipBlanks here).follows
    have reads : ∀ here parsed, query (accessors fuel) here = .ok parsed →
        Follows here parsed.rest := fun _ _ found => (query_ahead found).1
    have inside := faultBehind_query ih fun _ _ _ found => accessors_follows found
    rw [accessors]
    refine .bind ((faultBehind_accessor? inside reads _).of_follows blanks) fun next read => ?_
    cases next with
    | none => exact (faultBehind_finish _ last).of_follows blanks
    | some pair =>
      have accessor := accessor?_sound (fun _ _ => query_sound (accessors_sound fuel)) read
      exact .bind ((ih _ _).of_follows (blanks.trans accessor.follows)) fun _ _ => .ok _

theorem stopOf_follows (parsed : Parsed) : Follows parsed.rest (stopOf parsed) := by
  rw [stopOf]
  split
  · rename_i close
    rw [Bool.and_eq_true, List.isPrefixOf_iff_prefix] at close
    obtain ⟨-, after, close⟩ := close
    have closing : Word [')', ']'] parsed.rest (parsed.rest.advance 2) := word_advance close.symm
    exact closing.follows
  · exact Follows.refl _

theorem faultBehind_compile (text : String) :
    FaultBehind (Cursor.start text) (compile text) := by
  have inside := faultBehind_query (faultBehind_accessors (text.length + 1))
    (fun _ _ _ found => accessors_follows found) (Cursor.start text)
  rw [compile]
  refine .bind inside fun parsed read => ?_
  change FaultBehind _ (if (stopOf parsed).rest.all Text.isBlank then _ else _)
  split
  · exact .ok _
  · exact .fail ((query_ahead read).1.trans (stopOf_follows parsed)) _

/-! ## Plans in filters -/

def Step.plans : Step → List Plan
  | .keyed .. => []
  | .filter _ plan _ => [plan]

def filterPlans (steps : List Step) : List Plan := steps.flatMap Step.plans

namespace Plan

inductive Within : Plan → Plan → Prop
  | self (plan : Plan) : Within plan plan
  | filter {host inner plan : Plan} : inner ∈ filterPlans plan.steps → Within host inner →
      Within host plan

/-- The plans in the filters of a plan stop where the text ends a filter, one behind the other
and before the plan around them stops. -/
structure Closes (text : List Char) (plan : Plan) : Prop where
  closed : ∀ inner ∈ filterPlans plan.steps,
    0 ≤ inner.stop ∧ [')', ']'] <+: text.drop inner.stop.toNat
  inside : ∀ inner ∈ filterPlans plan.steps, inner.stop + 2 ≤ plan.stop
  ordered : ((filterPlans plan.steps).map Plan.stop).Pairwise (· < ·)

/-- Whether a plan and those inside it on all levels close their filters in the text. -/
def ClosesWithin (text : List Char) (plan : Plan) : Prop :=
  ∀ host : Plan, host.Within plan → host.Closes text

theorem Closes.within {text : List Char} {plan : Plan} (closes : plan.Closes text)
    (inner : ∀ inner ∈ filterPlans plan.steps, inner.ClosesWithin text) :
    plan.ClosesWithin text := by
  intro host within
  cases within with
  | self => exact closes
  | filter listed within => exact inner _ listed host within

end Plan

/-- Between two places stand plans, each with the end of its filter behind it. -/
inductive Spaced : Cursor → List Plan → Cursor → Prop
  | nil {here there : Cursor} : Follows here there → Spaced here [] there
  | cons {here near behind there : Cursor} {plan : Plan} {plans : List Plan} :
      Follows here near → plan.stop = near.offset → Word [')', ']'] near behind →
      Spaced behind plans there → Spaced here (plan :: plans) there

namespace Spaced

variable {here near there : Cursor} {plans others : List Plan}

theorem follows (spaced : Spaced here plans there) : Follows here there := by
  induction spaced with
  | nil follows => exact follows
  | cons follows _ closing _ ih => exact follows.trans (closing.follows.trans ih)

theorem of_follows (spaced : Spaced near plans there) (follows : Follows here near) :
    Spaced here plans there := by
  cases spaced with
  | nil further => exact .nil (follows.trans further)
  | cons further stop closing rest => exact .cons (follows.trans further) stop closing rest

theorem append (first : Spaced here plans near) (second : Spaced near others there) :
    Spaced here (plans ++ others) there := by
  induction first with
  | nil follows => exact second.of_follows follows
  | cons follows stop closing _ ih => exact .cons follows stop closing (ih second)

theorem exists_place (spaced : Spaced here plans there) :
    ∀ plan ∈ plans, ∃ near behind, Follows here near ∧ plan.stop = near.offset ∧
      Word [')', ']'] near behind ∧ Follows behind there := by
  induction spaced with
  | nil => exact nofun
  | cons follows stop closing rest ih =>
    refine List.forall_mem_cons.mpr ⟨⟨_, _, follows, stop, closing, rest.follows⟩, ?_⟩
    intro plan listed
    obtain ⟨near, behind, further, found⟩ := ih plan listed
    exact ⟨near, behind, follows.trans (closing.follows.trans further), found⟩

theorem pairwise (spaced : Spaced here plans there) :
    (plans.map Plan.stop).Pairwise (· < ·) := by
  induction spaced with
  | nil => exact .nil
  | cons follows stop closing rest ih =>
    rw [List.map_cons, List.pairwise_cons]
    refine ⟨?_, ih⟩
    intro later listed
    obtain ⟨plan, member, rfl⟩ := List.mem_map.mp listed
    obtain ⟨near, behind, further, stop', -⟩ := rest.exists_place plan member
    have first := closing.2
    have second := further.offset_le
    rw [stop, stop']
    simp only [List.length_cons, List.length_nil] at first
    omega

theorem closes {text : String} {steps : List Step} {stop : Int}
    (spaced : Spaced here (filterPlans steps) there) (start : Follows (Cursor.start text) here)
    (ends : there.offset ≤ stop) : (Plan.mk steps stop).Closes text.toList := by
  refine ⟨?_, ?_, spaced.pairwise⟩
  · intro inner listed
    obtain ⟨near, behind, follows, place, closing, -⟩ := spaced.exists_place inner listed
    rw [place, Int.toNat_natCast, (start.trans follows).drop_offset]
    exact ⟨Int.natCast_nonneg _, behind.rest, closing.1.symm⟩
  · intro inner listed
    obtain ⟨near, behind, -, place, closing, further⟩ := spaced.exists_place inner listed
    have first := closing.2
    have second := further.offset_le
    simp only [List.length_cons, List.length_nil] at first
    rw [place]
    change (near.offset : Int) + 2 ≤ stop
    omega

end Spaced

theorem Step.plans_negate (step : Step) : step.negate.plans = step.plans := by
  cases step <;> rfl

theorem Step.plans_anchor (movement : Movement) : (Step.anchor movement).plans = [] := rfl

theorem filterPlans_concat_negate (front : List Step) (last : Step) :
    filterPlans (front ++ [last.negate]) = filterPlans (front ++ [last]) := by
  simp [filterPlans, Step.plans_negate]

namespace Grammar

theorem Bracket.spaced {movement : Movement} {here there : Cursor} {step : Step}
    (bracket : Bracket movement here step there) : Spaced here step.plans there := by
  have follows := bracket.follows
  cases bracket with
  | star => exact .nil follows
  | key => exact .nil follows
  | index => exact .nil follows
  | filter opening query closing =>
    exact .cons (opening.follows.trans query.follows) rfl closing (.nil (Follows.refl _))
  | negated opening query closing =>
    exact .cons (opening.follows.trans query.follows) rfl closing (.nil (Follows.refl _))

theorem Accessor.spaced {here there : Cursor} {step : Step} (accessor : Accessor here step there) :
    Spaced here step.plans there := by
  cases accessor with
  | named dots blanks identifier =>
    exact .nil (dots.follows.trans (blanks.follows.trans identifier.follows))
  | dotted dots blanks bracket =>
    exact bracket.spaced.of_follows (dots.follows.trans blanks.follows)
  | bare bracket => exact bracket.spaced

theorem Ending.plans_eq {last final : Step} {here there : Cursor} {compared : Bool}
    (ending : Ending last here final compared there) : final.plans = last.plans := by
  cases ending <;> rfl

theorem Ending.filterPlans_eq {last final : Step} {here there : Cursor} {compared : Bool}
    (ending : Ending last here final compared there) (movement : Movement) (front : List Step) :
    filterPlans (.anchor movement :: (front ++ [final])) = filterPlans (front ++ [last]) := by
  simp [filterPlans, ending.plans_eq, Step.plans_anchor]

mutual

theorem Query.spaced {here there : Cursor} {steps : List Step} {compared : Bool} :
    Query here steps compared there → Spaced here (filterPlans steps) there
  | @Query.mk _ _ _ _ movement front _ _ _ anchor accessors ending => by
    rw [ending.filterPlans_eq]
    have spaced := accessors.spaced.append (.nil ending.follows)
    rw [List.append_nil] at spaced
    exact spaced.of_follows anchor.follows

theorem Accessors.spaced {here there : Cursor} {steps : List Step} :
    Accessors here steps there → Spaced here (filterPlans steps) there
  | .nil => .nil (Follows.refl _)
  | .cons blanks accessor accessors =>
    (accessor.spaced.append accessors.spaced).of_follows blanks.follows

end

variable {text : String}

mutual

theorem Query.closes {here there : Cursor} {steps : List Step} {compared : Bool}
    (start : Follows (Cursor.start text) here) : Query here steps compared there →
    ∀ inner ∈ filterPlans steps, inner.ClosesWithin text.toList
  | .mk anchor accessors ending => by
    rw [ending.filterPlans_eq]
    exact accessors.closes (start.trans anchor.follows)

theorem Accessors.closes {here there : Cursor} {steps : List Step}
    (start : Follows (Cursor.start text) here) : Accessors here steps there →
    ∀ inner ∈ filterPlans steps, inner.ClosesWithin text.toList
  | .nil => nofun
  | .cons blanks accessor accessors => by
    have near := start.trans blanks.follows
    intro inner listed
    rcases List.mem_append.mp listed with listed | listed
    · exact accessor.closes near inner listed
    · exact accessors.closes (near.trans accessor.follows) inner listed

theorem Accessor.closes {here there : Cursor} {step : Step}
    (start : Follows (Cursor.start text) here) : Accessor here step there →
    ∀ inner ∈ step.plans, inner.ClosesWithin text.toList
  | .named _ _ _ => nofun
  | .dotted dots blanks bracket =>
    bracket.closes (start.trans (dots.follows.trans blanks.follows))
  | .bare bracket => bracket.closes start

theorem Bracket.closes {movement : Movement} {here there : Cursor} {step : Step}
    (start : Follows (Cursor.start text) here) : Bracket movement here step there →
    ∀ inner ∈ step.plans, inner.ClosesWithin text.toList
  | .star _ => nofun
  | .key _ _ => nofun
  | .index _ _ _ _ => nofun
  | .filter opening query _ => by
    have behind := start.trans opening.follows
    rw [Step.plans, List.forall_mem_singleton]
    exact (query.spaced.closes behind (Int.le_refl _)).within (query.closes behind)
  | @Bracket.negated _ _ _ _ _ front last _ opening query _ => by
    have behind := start.trans opening.follows
    have same := filterPlans_concat_negate front last
    have spaced := query.spaced
    have inside := query.closes behind
    rw [← same] at spaced inside
    rw [Step.plans, List.forall_mem_singleton]
    exact (spaced.closes behind (Int.le_refl _)).within inside

end

end Grammar

theorem LongIndex.not_shortRuns {text : List Char} {count : Nat} (long : LongIndex text count) :
    ¬ ShortRuns text := by
  obtain ⟨negative, digits, inside, digit, length, limit⟩ := long
  intro short
  have run : digits <:+: '[' :: (sign negative ++ digits ++ [']']) :=
    ⟨'[' :: sign negative, [']'], by simp⟩
  exact absurd (short digits (run.trans inside) digit) (by omega)

theorem closesWithin_of_compile {text : String} {plan : Plan} (compiled : compile text = .ok plan) :
    0 ≤ plan.stop ∧ plan.stop ≤ text.length ∧
      (∀ c ∈ text.toList.drop plan.stop.toNat, Text.isBlank c = true) ∧
      plan.ClosesWithin text.toList := by
  have start := Follows.refl (Cursor.start text)
  have stops : ∀ {steps : List Step} {compared : Bool} {near stop : Cursor},
      Query (.start text) steps compared near → Follows near stop →
      (∀ c ∈ stop.rest, Text.isBlank c = true) →
      0 ≤ (stop.offset : Int) ∧ (stop.offset : Int) ≤ text.length ∧
        (∀ c ∈ text.toList.drop (stop.offset : Int).toNat, Text.isBlank c = true) ∧
        (Plan.mk steps stop.offset).ClosesWithin text.toList := by
    intro steps compared near stop query further blank
    have place := query.follows.trans further
    refine ⟨Int.natCast_nonneg _, Int.ofNat_le.mpr place.offset_le_length, ?_, ?_⟩
    · rwa [Int.toNat_natCast, place.drop_offset]
    · have ends : (near.offset : Int) ≤ stop.offset := Int.ofNat_le.mpr further.offset_le
      exact (query.spaced.closes start ends).within (query.closes start)
  cases compile_sound compiled with
  | @plain steps stop query ends =>
    refine stops query (Follows.refl stop) ?_
    rw [ends]
    exact nofun
  | compared query closing blank => exact stops query closing.follows blank

/-- A compiled plan stops in its text with blanks behind it, and on every level the plans in its
filters stop in front of a `)]`, one behind the other and before the plan around them; a fault
lies in the text; and a text without long runs of digits has a plan or a fault.  All that is read
ends further on, unless no comparison was found behind the last step. -/
theorem compile_offsets (text : String) :
    (∀ plan, compile text = .ok plan →
      0 ≤ plan.stop ∧ plan.stop ≤ text.length ∧
        (∀ c ∈ text.toList.drop plan.stop.toNat, Text.isBlank c = true) ∧
        plan.ClosesWithin text.toList) ∧
      (∀ position reason, compile text = .error (.malformed position reason) →
        position ≤ text.length) ∧
      (ShortRuns text.toList → ∀ digits, compile text ≠ .error (.overlongIndex digits)) ∧
      (∀ fuel here parsed, query (accessors fuel) here = .ok parsed → Ahead here parsed.rest) ∧
      (∀ fuel movement, Advances (bracket (query (accessors fuel)) movement)) ∧
      (∀ movement, Advances (identifier movement)) ∧ Advances QuotedKey.read ∧
      ∀ last here parsed, finish last here = .ok parsed →
        Ahead here parsed.rest ∨
          comparison? here.rest = none ∧ parsed.rest = here ∧ parsed.steps = [last] := by
  refine ⟨fun plan => closesWithin_of_compile, ?_, ?_, fun fuel here parsed => query_ahead,
    advances_bracket, advances_identifier, advances_quotedKey, fun last here parsed => finish_ahead⟩
  · intro position reason failed
    obtain ⟨there, follows, rfl⟩ := faultBehind_compile text position reason failed
    exact follows.offset_le_length
  · intro short digits failed
    exact (compile_eq_overlong failed).not_shortRuns short

/-- A filter in a filter and another one behind it, and a text that ends in a quoted key. -/
theorem compile_offsets_nested :
    let inner : Plan := .mk [.anchor .current, .keyed .children (some (.name "c"))
      (some ⟨.atLeast, .num (.int 2)⟩) false] 18
    let first : Plan := .mk [.anchor .current, .keyed .children (some (.name "b")) none false,
      .filter .children inner false] 20
    let second : Plan := .mk [.anchor .current, .keyed .children (some (.name "d")) none true] 30
    let plan : Plan := .mk [.anchor .root, .keyed .children (some (.name "a")) none false,
      .filter .children first false, .filter .children second false] 33
    compile "$.a[?(@.b[?(@.c>=2)])] [?(!@.d)] " = .ok plan ∧ first.Within plan ∧
      [')', ']'] <+: "$.a[?(@.b[?(@.c>=2)])] [?(!@.d)] ".toList.drop 18 ∧
      inner.stop + 2 ≤ first.stop ∧ first.stop < second.stop ∧
      compile "$.a[?(@.b['c" = .error (.malformed 12 .unterminatedKey) ∧
      12 ≤ "$.a[?(@.b['c".length := by
  intro inner first second plan
  have compiled : compile "$.a[?(@.b[?(@.c>=2)])] [?(!@.d)] " = .ok plan := rfl
  have within : first.Within plan := .filter (List.mem_cons_self ..) (.self first)
  have failed : compile "$.a[?(@.b['c" = .error (.malformed 12 .unterminatedKey) := rfl
  obtain ⟨-, -, -, closes⟩ := (compile_offsets _).1 plan compiled
  have listed : inner ∈ filterPlans first.steps := List.mem_cons_self ..
  have ordered := (closes plan (.self plan)).ordered
  exact ⟨compiled, within, ((closes first within).closed inner listed).2,
    (closes first within).inside inner listed,
    List.rel_of_pairwise_cons ordered (List.mem_singleton_self _), failed,
    (compile_offsets _).2.1 12 _ failed⟩

end PathQuery
