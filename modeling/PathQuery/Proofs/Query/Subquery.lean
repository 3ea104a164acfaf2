import PathQuery.Proofs.Query.Failure
import PathQuery.Proofs.Query.Front
import PathQuery.Proofs.Query.Reach
import PathQuery.Source

/-!
# Whole queries inside filters

A query means the same in a filter as by itself: put into a filter at the root,
it keeps its steps and finds something in the same documents (`compile_nested`).
Only the `)]` that ends the filter can disturb it.  It ends no comparison but
one that is left without a literal, as in `<=)]`, and then it is taken away from
the filter (`accessors_close`).
-/

set_option autoImplicit false

namespace PathQuery

open Grammar Compile Evaluate

theorem Grammar.Compares.append_close {text : List Char} {op other : Operator}
    {literal found : List Char} (compares : Compares text op literal)
    (compares' : Compares (text ++ [')', ']']) other found) :
    other = op ∧ found = literal ∨ other.symbol.toList ++ found = text := by
  obtain ⟨some', line, inside⟩ := compares'.1
  rcases eq_or_prefix_of_prefix_close inside with whole | before
  · exact .inr whole
  · have least : Compares text other found :=
      ⟨⟨some', line, before⟩, fun op' found' cuts => compares'.2 op' found' (cuts.append _)⟩
    exact .inl (least.unique compares)

/-- Whatever is read here takes all of the text, and where a comparison ends the query, all but
the `)]` at its end. -/
def Swallows (compared : Bool) (result : Except CompileError Parsed) : Prop :=
  ∀ parsed, result = .ok parsed →
    parsed.rest.rest = [] ∨ compared = true ∧ parsed.rest.rest = [')', ']']

section Close

variable {distance : Nat}

theorem Closed.place_close {compared : Bool} {there : Cursor} (closed : Closed compared there) :
    Closed compared (there.place distance [')', ']']) := by
  refine closed.imp_right fun either => .inr ?_
  rcases either with nothing | close
  · rw [Cursor.place, nothing]
    exact List.prefix_refl _
  · exact close.trans (List.prefix_append _ _)

theorem edge_close {there : Cursor}
    (edge : ∀ c, there.rest.head? = some c → isWordPart c = false) :
    ∀ c, (there.place distance [')', ']']).rest.head? = some c → isWordPart c = false := by
  intro c first
  rw [Cursor.place] at first
  cases text : there.rest with
  | nil =>
    rw [text] at first
    cases first
    rfl
  | cons d rest =>
    rw [text] at first
    exact edge c (by rw [text]; exact first)

theorem Outside.append_close {text : List Char} (outside : Outside text) :
    Outside (text ++ [')', ']']) := by
  cases text with
  | nil => exact outside_close [']']
  | cons c rest =>
    intro d first
    exact outside d first

theorem Grammar.Compares.close_or_swallows {here near : Cursor} {op : Operator}
    {literal : List Char} (blanks : Blanks here near) (compares : Compares near.rest op literal)
    (last : Step) :
    Compares (near.rest ++ [')', ']']) op literal ∨
      Swallows true (finish last (here.place distance [')', ']']).skipBlanks) := by
  obtain ⟨other, found, cut⟩ := (compares.1.append [')', ']']).exists_comparison
  have compares' := comparison?_sound cut
  rcases compares.append_close compares' with ⟨rfl, rfl⟩ | whole
  · exact .inl compares'
  right
  intro parsed finished
  have text : (near.place distance [')', ']']).rest = near.rest ++ [')', ']'] := rfl
  rw [skipBlanks_eq blanks.place (text ▸ compares'.1.outside.fresh), finish, text, cut] at finished
  cases last with
  | filter => cases finished
  | keyed =>
    cases finished
    refine .inr ⟨rfl, ?_⟩
    rw [Cursor.advance, text, ← whole, List.drop_left']
    rw [List.length_append, String.length_toList]

theorem finish_close {last : Step} {here : Cursor} {parsed : Parsed}
    (found : finish last here.skipBlanks = .ok parsed)
    (closed : Closed parsed.compared parsed.rest) :
    finish (last.shift distance) (here.place distance [')', ']']).skipBlanks =
        .ok (parsed.place distance [')', ']']) ∨
      Swallows parsed.compared
        (finish (last.shift distance) (here.place distance [')', ']']).skipBlanks) := by
  obtain ⟨steps, compared, stop⟩ := parsed
  obtain ⟨final, only, ending⟩ := finish_sound found
  cases only
  have kept : Ending (last.shift distance) (here.place distance [')', ']']) (final.shift distance)
      compared (stop.place distance [')', ']']) →
      finish (last.shift distance) (here.place distance [')', ']']).skipBlanks =
        .ok (Parsed.place distance [')', ']'] ⟨[final], compared, stop⟩) :=
    fun ending => (finish_complete ending closed.place_close).2
  cases ending with
  | plain blanks => exact .inl (kept (.plain blanks.place))
  | compared blanks compares word read =>
    refine (compares.close_or_swallows blanks _).imp_left fun compares' => ?_
    exact kept (.compared blanks.place compares' word.place read)
  | unread blanks compares word read =>
    refine (compares.close_or_swallows blanks _).imp_left fun compares' => ?_
    exact kept (.unread blanks.place compares' word.place read)

def ReadsOrSwallows (distance : Nat) (parsed : Parsed) (result : Except CompileError Parsed) :
    Prop :=
  result = .ok (parsed.place distance [')', ']']) ∨ Swallows parsed.compared result

section Accessor

variable {read read' : Step → Cursor → Except CompileError Parsed} {size : Nat}
  {here there : Cursor} {movement : Movement} {step : Step}
  (close : ∀ last here parsed, read last here = .ok parsed → Closed parsed.compared parsed.rest →
    here.rest.length + 2 < size →
    ReadsOrSwallows distance parsed (read' (last.shift distance) (here.place distance [')', ']'])))

include close

theorem query_close {parsed : Parsed} (found : query read here = .ok parsed)
    (closed : Closed parsed.compared parsed.rest) (room : here.rest.length + 2 < size) :
    ReadsOrSwallows distance parsed (query read' (here.place distance [')', ']'])) := by
  obtain ⟨some', first, near, anchored, later, long⟩ := query_eq_ok_iff.mp found
  obtain ⟨movement, rfl, written⟩ := anchor_sound anchored
  have length := written.follows.suffix.length_le
  have anchored' : anchor (here.place distance [')', ']']) =
      (.anchor movement, near.place distance [')', ']']) := anchor_place anchored some'
  rcases close _ near parsed later closed (by omega) with same | swallows
  · refine .inl (query_eq_ok_iff.mpr ⟨Cursor.place_rest_ne_nil some', _, _, anchored', same, ?_⟩)
    rwa [Parsed.place, List.length_map]
  · refine .inr fun parsed' found' => ?_
    obtain ⟨-, first', near', anchored'', later', -⟩ := query_eq_ok_iff.mp found'
    rw [anchored'] at anchored''
    cases anchored''
    exact swallows parsed' later'

theorem filter_close (found : Compile.filter (query read) movement here = .ok (step, there))
    (room : here.rest.length + 2 < size) :
    Compile.filter (query read') movement (here.place distance [')', ']']) =
        .ok (step.shift distance, there.place distance [')', ']']) ∨
      ∀ step' there', Compile.filter (query read') movement (here.place distance [')', ']']) =
        .ok (step', there') → there'.rest = [] := by
  obtain ⟨⟨steps, compared, stop⟩, inner, closing, rfl⟩ := exists_read_of_filter found
  have some' : here.rest ≠ [] := by
    intro nothing
    rw [nothing] at inner
    exact (query_eq_ok_iff.mp inner).1 nothing
  have head : (here.place distance [')', ']']).rest.head? = here.rest.head? :=
    List.head?_append_of_ne_nil _ some'
  have inside : (if (here.place distance [')', ']']).rest.head? = some '!' then
        (here.place distance [')', ']']).advance 1 else here.place distance [')', ']']) =
      (if here.rest.head? = some '!' then here.advance 1 else here).place distance [')', ']'] := by
    rw [head]
    split
    · exact Cursor.place_advance (List.length_pos_of_ne_nil some')
    · rfl
  have shorter : (if here.rest.head? = some '!' then here.advance 1 else here).rest.length ≤
      here.rest.length := by
    split
    · exact (List.drop_suffix 1 here.rest).length_le
    · exact Nat.le_refl _
  rcases query_close close inner closing.closed (by omega) with same | swallows
  · left
    rw [← inside] at same
    rw [filter_of_read same closing.place, head, Step.shift, Plan.shift, Plan.shiftSteps_eq_map]
    split
    · rw [map_shift_negateLast]
      rfl
    · rfl
  · right
    intro step' there' found'
    obtain ⟨parsed, inner', closing', -⟩ := exists_read_of_filter found'
    rw [inside] at inner'
    rcases swallows parsed inner' with nothing | ⟨-, last⟩
    · simp [closing'.1] at nothing
    · simpa [closing'.1] using last

theorem accessor?_close
    (found : accessor? (query read) here = .ok (some (step, there)))
    (edge : ∀ c, (there.place distance [')', ']']).rest.head? = some c → isWordPart c = false)
    (room : here.rest.length + 2 ≤ size) :
    accessor? (query read') (here.place distance [')', ']']) =
        .ok (some (step.shift distance, there.place distance [')', ']'])) ∨
      ∀ next, accessor? (query read') (here.place distance [')', ']']) = .ok next →
        ∃ step' there', next = some (step', there') ∧ there'.rest = [] := by
  rcases accessor?_place_cases found with ⟨movement, near, rest, leads, text, found⟩ | alone
  · have shorter : (near.advance 3).rest.length + 3 = near.rest.length := by
      simp [Cursor.advance, text]
    have length := leads.follows.suffix.length_le
    rw [accessor?_filter_place leads text]
    rcases filter_close close found (by omega) with same | last
    · left
      rw [same]
      rfl
    · right
      intro next found'
      obtain ⟨⟨step', there'⟩, inside, rfl⟩ := map_eq_ok found'
      exact ⟨step', there', rfl, last step' there' inside⟩
  · exact .inl (alone _ distance _ edge)

end Accessor

theorem accessors_close_ending {size : Nat} {here : Cursor} {last : Step} {parsed : Parsed}
    (found : finish last here.skipBlanks = .ok parsed)
    (closed : Closed parsed.compared parsed.rest) :
    ReadsOrSwallows distance parsed
      (accessors (size + 1) (last.shift distance) (here.place distance [')', ']'])) := by
  obtain ⟨final, only, ending⟩ := finish_sound found
  have outside := (finish_complete ending closed).1.append_close
  have none' : accessor? (query (accessors size)) (here.place distance [')', ']']).skipBlanks =
      .ok none := by
    rw [skipBlanks_eq (blanks_skipBlanks here).place outside.fresh]
    exact accessor?_none outside
  have finishes : accessors (size + 1) (last.shift distance) (here.place distance [')', ']']) =
      finish (last.shift distance) (here.place distance [')', ']']).skipBlanks := by
    rw [accessors, none']
    rfl
  rw [ReadsOrSwallows, finishes]
  exact finish_close found closed

theorem accessors_close_accessor {fuel size : Nat} {here there : Cursor} {last step : Step}
    {later : Parsed}
    (read : accessor? (query (accessors fuel)) here.skipBlanks = .ok (some (step, there)))
    (inside : accessor? (query (accessors size)) (here.skipBlanks.place distance [')', ']']) =
        .ok (some (step.shift distance, there.place distance [')', ']'])) ∨
      ∀ next, accessor? (query (accessors size)) (here.skipBlanks.place distance [')', ']']) =
        .ok next → ∃ step' there', next = some (step', there') ∧ there'.rest = [])
    (rest : ReadsOrSwallows distance later
      (accessors size (step.shift distance) (there.place distance [')', ']'])))
    (some' : 0 < size) :
    ReadsOrSwallows distance { later with steps := last :: later.steps }
      (accessors (size + 1) (last.shift distance) (here.place distance [')', ']'])) := by
  obtain ⟨c, text, start, either⟩ :=
    (accessor?_sound (fun _ _ => query_sound (accessors_sound fuel)) read).opens
  have opens : Opens (here.skipBlanks.place distance [')', ']']).rest :=
    ⟨c, text ++ [')', ']'], Cursor.place_rest start, either⟩
  rw [← skipBlanks_eq (blanks_skipBlanks here).place opens.fresh] at inside
  rcases inside with same | ends
  · rcases rest with placed | swallows
    · exact .inl (accessors_eq_ok_iff.mpr (.inr ⟨_, _, _, same, placed, rfl⟩))
    · refine .inr fun parsed found => ?_
      rcases accessors_eq_ok_iff.mp found with ⟨none', -⟩ | ⟨_, _, later', read', behind', rfl⟩
      · rw [same] at none'
        cases none'
      · rw [same] at read'
        cases read'
        exact swallows later' behind'
  · refine .inr fun parsed found => ?_
    rcases accessors_eq_ok_iff.mp found with
      ⟨none', -⟩ | ⟨step', ⟨offset, left⟩, later', read', behind', rfl⟩
    · obtain ⟨_, _, nothing, -⟩ := ends none none'
      cases nothing
    · obtain ⟨_, _, same, nothing⟩ := ends _ read'
      cases same
      cases nothing
      rw [@accessors_blank size some' step' ⟨offset, []⟩ nofun] at behind'
      cases behind'
      exact .inl rfl

/-- A query that is read by itself is read the same way in front of `)]`, unless the `)]` ends one
of its comparisons, and then nothing is left of the text. -/
theorem accessors_close (fuel : Nat) :
    ∀ size last here parsed, accessors fuel last here = .ok parsed →
      Closed parsed.compared parsed.rest → here.rest.length + 2 < size →
      ReadsOrSwallows distance parsed
        (accessors size (last.shift distance) (here.place distance [')', ']'])) := by
  -- queries in filters are read with one unit less, so the hypothesis serves them too
  induction fuel with
  | zero =>
    intro size last here parsed found
    cases found
  | succ fuel ih =>
    intro size last here parsed found closed room
    obtain ⟨size, rfl⟩ := Nat.exists_eq_add_one_of_ne_zero (Nat.ne_zero_of_lt room)
    rcases accessors_eq_ok_iff.mp found with ⟨-, found⟩ | ⟨step, there, later, read, behind, rfl⟩
    · exact accessors_close_ending found closed
    · have shorter := (blanks_skipBlanks here).follows.suffix.length_le
      have edge := (accessors_sound fuel _ _ _ behind).edge closed
      obtain ⟨-, further⟩ := accessor?_progress read
      have inside := accessor?_close (ih size) read (edge_close edge) (by omega)
      have rest := ih size step there later behind closed (by omega)
      exact accessors_close_accessor read inside rest (by omega)

end Close

/-! ## Queries in a filter at the root -/

/-- The text with a query in a filter at the root.  A comparison that ends the query brings the
end of the filter along. -/
def inFilter (text : String) : String :=
  "$[?(" ++ (text ++ if endsCompared text then "" else ")]")

theorem head_ne_of_compile {text : String} {plan : Plan} (compiled : compile text = .ok plan) :
    text.toList.head? ≠ some '!' := by
  obtain ⟨parsed, read, -⟩ := compile_eq_ok_iff_read.mp compiled
  exact (query_sound (accessors_sound _) read).head_ne

theorem compile_of_inside {rest : String} {steps : List Step} {compared : Bool}
    {stop there : Cursor}
    (read : query (accessors ("$[?(" ++ rest).length) ⟨4, rest.toList⟩ =
      .ok ⟨steps, compared, stop⟩)
    (closing : Word [')', ']'] stop there) (blank : ∀ c ∈ there.rest, Text.isBlank c = true) :
    ∃ stop', compile ("$[?(" ++ rest) =
      .ok (.mk [.anchor .root, .filter .children (.mk steps stop.offset) false] stop') := by
  have plain : ¬ rest.toList.head? = some '!' := (query_sound (accessors_sound _) read).head_ne
  have start : Cursor.start ("$[?(" ++ rest) = ⟨0, '$' :: '[' :: '?' :: '(' :: rest.toList⟩ := by
    simp [Cursor.start]
  have some' : 0 < ("$[?(" ++ rest).length := by
    rw [String.length_append]
    exact Nat.lt_add_right _ (by decide)
  have found : Compile.filter (query (accessors ("$[?(" ++ rest).length)) .children
      ⟨4, rest.toList⟩ = .ok (.filter .children (.mk steps stop.offset) false, there) := by
    rw [filter_of_read (by rwa [if_neg plain]) closing, if_neg plain]
  have written : Lead [] .children := .plain (by simp)
  have behind := @accessors_of_filter [] rest.toList .children written 1 _ _ there found blank some'
    (.anchor .root)
  refine ⟨_, compile_eq_ok_iff_read.mpr ⟨_, query_eq_ok_iff.mpr ⟨?_, .anchor .root,
    ⟨1, '[' :: '?' :: '(' :: rest.toList⟩, ?_, behind, Nat.le_refl 2⟩, List.forall_mem_nil _, rfl⟩⟩
  · simp [start]
  · rw [start]
    rfl

theorem inFilter_of_compared {text : String} (compared : endsCompared text = true) :
    inFilter text = "$[?(" ++ text := by
  rw [inFilter, if_pos compared, String.append_empty]

theorem inFilter_of_plain {text : String} (plain : endsCompared text = false) :
    inFilter text = "$[?(" ++ (text ++ ")]") := by
  rw [inFilter, plain]
  rfl

theorem start_place_close (text : String) :
    (Cursor.start text).place 4 [')', ']'] = ⟨4, (text ++ ")]").toList⟩ := by
  have whole : (text ++ ")]").toList = text.toList ++ [')', ']'] := by simp
  rw [whole, Cursor.start, Cursor.place, Nat.zero_add]

theorem room_close (text : String) :
    (Cursor.start text).rest.length + 2 < ("$[?(" ++ (text ++ ")]")).length := by
  rw [String.length_append, String.length_append, Cursor.start, String.length_toList]
  change text.length + 2 < 4 + (text.length + 2)
  omega

theorem exists_compile_inFilter {text : String} {plan : Plan} (compiled : compile text = .ok plan)
    (either : endsCompared text = true ∨ ¬ EmptyOrder text.toList) :
    ∃ stop stop', compile (inFilter text) = .ok (.mk [.anchor .root,
      .filter .children (.mk (plan.steps.map (Step.shift 4)) stop) false] stop') := by
  cases compared : endsCompared text with
  | true =>
    obtain ⟨⟨steps, compared', near⟩, read, blank, rfl⟩ := compile_eq_ok_iff_read.mp compiled
    have same : compared' = true := by rwa [endsCompared, read] at compared
    subst same
    obtain ⟨after, close⟩ := (query_sound (accessors_sound _) read).close
    have closing : Word [')', ']'] near (near.advance 2) := word_advance close.symm
    rw [stopOf_compared closing] at blank
    have room : text.toList.length + ([] : List Char).length < ("$[?(" ++ text).length := by
      rw [String.length_append, String.length_toList]
      change text.length + 0 < 4 + text.length
      omega
    have moved : query (accessors ("$[?(" ++ text).length) ((Cursor.start text).place 4 []) =
        .ok (Parsed.place 4 [] ⟨steps, true, near⟩) :=
      query_place (accessors_place _ _) read (.inl rfl) (.inl rfl) room
    rw [Cursor.place_nil] at moved
    have blank' : ∀ c ∈ ((near.advance 2).place 4 []).rest, Text.isBlank c = true := by
      rwa [Cursor.place_nil]
    rw [inFilter_of_compared compared]
    exact ⟨_, compile_of_inside moved closing.place blank'⟩
  | false =>
    have clear := either.resolve_left (by simp [compared])
    obtain ⟨steps, read, rfl⟩ := exists_read_of_compile compiled compared
    have closing : Word [')', ']'] ((⟨text.length, []⟩ : Cursor).place 4 [')', ']'])
        ⟨text.length + 4 + 2, []⟩ := ⟨rfl, rfl⟩
    have moved : query (accessors ("$[?(" ++ (text ++ ")]")).length)
        ((Cursor.start text).place 4 [')', ']']) =
          .ok (Parsed.place 4 [')', ']'] ⟨steps, false, ⟨text.length, []⟩⟩) :=
      query_place (accessors_place _ _) read closing.closed (.inr clear) (room_close text)
    rw [start_place_close] at moved
    rw [inFilter_of_plain compared]
    exact ⟨_, compile_of_inside moved closing (List.forall_mem_nil _)⟩

/-- Whatever is read of a query in a filter is the query. -/
theorem exists_of_compile_inFilter {text : String} {plan whole : Plan}
    (compiled : compile text = .ok plan) (compiled' : compile (inFilter text) = .ok whole) :
    ∃ stop stop', whole = .mk [.anchor .root,
      .filter .children (.mk (plan.steps.map (Step.shift 4)) stop) false] stop' := by
  cases compared : endsCompared text with
  | true =>
    obtain ⟨stop, stop', found⟩ := exists_compile_inFilter compiled (.inl compared)
    rw [compiled'] at found
    exact ⟨stop, stop', Except.ok.inj found⟩
  | false =>
    obtain ⟨steps, read, rfl⟩ := exists_read_of_compile compiled compared
    rw [inFilter_of_plain compared] at compiled'
    obtain ⟨parsed, read', -, rfl⟩ := compile_eq_ok_iff_read.mp compiled'
    have start : Cursor.start ("$[?(" ++ (text ++ ")]")) =
        ⟨0, '$' :: '[' :: '?' :: '(' :: (text ++ ")]").toList⟩ := by
      simp [Cursor.start]
    rw [start] at read'
    obtain ⟨-, first, near, anchored, behind, -⟩ := query_eq_ok_iff.mp read'
    cases anchored
    obtain ⟨step, there, later, found, rest, rfl⟩ := exists_filter_of_accessors behind
    have plain : ¬ (text ++ ")]").toList.head? = some '!' := fun marked =>
      head_ne_of_compile compiled ((head?_append_close '!' (by decide)).mp marked)
    obtain ⟨inner, inside, closing, rfl⟩ := exists_read_of_filter found
    rw [if_neg plain] at inside rest
    have close : ReadsOrSwallows 4 ⟨steps, false, ⟨text.length, []⟩⟩
        (query (accessors ("$[?(" ++ (text ++ ")]")).length)
          ((Cursor.start text).place 4 [')', ']'])) :=
      query_close (accessors_close _ _) read (.inr (.inl rfl)) (room_close text)
    rw [start_place_close] at close
    rcases close with same | swallows
    · obtain rfl := Except.ok.inj (inside.symm.trans same)
      have ends : there.rest = [] := by
        simpa [Parsed.place, Cursor.place] using closing.1
      have blank : ∀ c ∈ there.rest, Text.isBlank c = true := by
        rw [ends]
        exact List.forall_mem_nil _
      rw [accessors_blank (Nat.zero_lt_of_lt (room_close text)) _ blank] at rest
      cases rest
      exact ⟨_, _, rfl⟩
    · rcases swallows inner inside with nothing | ⟨no, -⟩
      · simp [closing.1] at nothing
      · cases no

theorem select_null {text : String} {plan : Plan} (compiled : compile text = .ok plan) :
    select (some plan) .null [] = [] := by
  have wf : Json.null.WellFormed := trivial
  rw [List.eq_nil_iff_forall_not_mem]
  intro path listed
  obtain ⟨-, ⟨value, found, present⟩, -⟩ := reaches_of_mem_select compiled wf listed
  rw [anchorPath, ite_self, Json.get?_nil] at found
  cases found
  cases present

theorem selectStep?_filter_root {document : Json} (plain : document.isArray = false)
    (plan : Plan) :
    selectStep? document [] (.filter .children plan false) [[]] =
      if document.isNull then .ok []
      else (selectPlan? document [] plan).map fun found => if found.isEmpty then [] else [[]] := by
  have root : tested false [] document = [[]] := by
    rw [tested, plain]
    rfl
  change collect? _ [[]] = _
  rw [collect?_singleton]
  change (if document.isNull then .ok [] else keep? _ (tested false [] document)) = _
  rw [root, keep?, collect?_singleton]
  congr 1
  cases selectPlan? document [] plan with
  | error e => rfl
  | ok found => cases found <;> rfl

theorem isEmpty_select?_inFilter {text : String} {plan : Plan}
    (compiled : compile text = .ok plan) (stop stop' : Int) {document : Json}
    (plain : document.isArray = false) :
    (select? (some (.mk [.anchor .root,
        .filter .children (.mk (plan.steps.map (Step.shift 4)) stop) false] stop')) document
        []).map List.isEmpty =
      (select? (some plan) document []).map List.isEmpty := by
  have inner : selectPlan? document [] (.mk (plan.steps.map (Step.shift 4)) stop) =
      select? (some plan) document [] := by
    have shifted := @selectPlan?_shift document 4 plan []
    rw [selectPlan?]
    cases plan with
    | mk steps => rwa [Plan.shift, selectPlan?, Plan.shiftSteps_eq_map] at shifted
  let filter : Step := .filter .children (.mk (plan.steps.map (Step.shift 4)) stop) false
  have whole : select? (some (.mk [.anchor .root, filter] stop')) document [] =
      selectStep? document [] filter [[]] := bind_pure (selectStep? document [] filter [[]])
  rw [whole, selectStep?_filter_root plain, inner]
  cases null : document.isNull with
  | true =>
    obtain rfl : document = .null := by
      cases document with
      | null => rfl
      | _ => cases null
    have compiled' : compile? text = .ok (some plan) := by rw [compile?, compiled]
    have short := shortOperands_of_compile? compiled'
    rw [(agrees_select? (some plan) .null []).answers ⟨trivial, short⟩, select_null compiled]
    rfl
  | false =>
    cases select? (some plan) document [] with
    | error e => rfl
    | ok paths => cases paths <;> rfl

/-- A query that is put into a filter at the root keeps its steps and finds something there in the
same documents, where the text with the filter compiles.  It does unless the `)]` behind the query
is taken for the end of a comparison that is left without a literal. -/
theorem compile_nested (text : String) (plan : Plan) (compiled : compile text = .ok plan) :
    (endsCompared text = true ∨ ¬ EmptyOrder text.toList →
      ∃ whole, compile (inFilter text) = .ok whole) ∧
    ∀ whole, compile (inFilter text) = .ok whole →
      (∃ inner stop, whole = .mk [.anchor .root, .filter .children inner false] stop ∧
        inner.steps = plan.steps.map (Step.shift 4)) ∧
      ∀ document : Json, document.isArray = false →
        (Source.text (inFilter text)).matchesIn document =
          (Source.text text).matchesIn document := by
  refine ⟨fun either => ?_, fun whole compiled' => ?_⟩
  · obtain ⟨stop, stop', found⟩ := exists_compile_inFilter compiled either
    exact ⟨_, found⟩
  · obtain ⟨stop, stop', rfl⟩ := exists_of_compile_inFilter compiled compiled'
    refine ⟨⟨_, stop', rfl, rfl⟩, fun document plain => ?_⟩
    have same := isEmpty_select?_inFilter compiled stop stop' plain
    have matched : ∀ {query : String} {found : Plan}, compile query = .ok found →
        (Source.text query).matchesIn document =
          (((select? (some found) document []).map List.isEmpty).map not).mapError
            .overlongNumber := by
      intro query found compiled
      rw [Source.matchesIn, Source.find, Source.plan?, compile?, compiled]
      change (Except.mapError _ (select? (some found) document [])).map _ = _
      cases select? (some found) document [] <;> rfl
    rw [matched compiled', matched compiled, same]

theorem compile_nested_comparisons :
    let plan : Plan := .mk [.anchor .current,
      .keyed .children (some (.name "rows")) none false,
      .filter .children (.mk [.anchor .current,
        .keyed .children (some (.name "n")) (some ⟨.atLeast, .num (.int 2)⟩) false] 15) false] 17
    let document : Json := .obj [("rows", .arr [.obj [("n", .num (.int 1))],
      .obj [("n", .num (.int 2))]])]
    compile "@.rows[?(@.n>=2)]" = .ok plan ∧ ¬ EmptyOrder "@.rows[?(@.n>=2)]".toList ∧
      ∃ whole, compile "$[?(@.rows[?(@.n>=2)])]" = .ok whole ∧
        (∃ inner stop, whole = .mk [.anchor .root, .filter .children inner false] stop ∧
          inner.steps = plan.steps.map (Step.shift 4)) ∧
        (Source.text "$[?(@.rows[?(@.n>=2)])]").matchesIn document =
          (Source.text "@.rows[?(@.n>=2)]").matchesIn document := by
  intro plan document
  have compiled : compile "@.rows[?(@.n>=2)]" = .ok plan := rfl
  have clear : ¬ EmptyOrder "@.rows[?(@.n>=2)]".toList := by decide +kernel
  have text : inFilter "@.rows[?(@.n>=2)]" = "$[?(@.rows[?(@.n>=2)])]" := rfl
  obtain ⟨exist, nested⟩ := compile_nested "@.rows[?(@.n>=2)]" plan compiled
  rw [text] at exist nested
  obtain ⟨whole, compiled'⟩ := exist (.inr clear)
  obtain ⟨shape, same⟩ := nested whole compiled'
  exact ⟨compiled, clear, whole, compiled', shape, same document rfl⟩

/-- It is not so that every query can be put into a filter: behind `<=` the `)]` of the filter at
the root becomes a literal. -/
theorem not_compile_inFilter :
    ¬ ∀ (text : String) (plan : Plan), compile text = .ok plan →
      ∃ inner stop, compile (inFilter text) =
          .ok (.mk [.anchor .root, .filter .children inner false] stop) ∧
        inner.steps = plan.steps.map (Step.shift 4) ∧
        ∀ document : Json, document.isArray = false →
          (Source.text (inFilter text)).matchesIn document =
            (Source.text text).matchesIn document := by
  intro nested
  let plan : Plan := .mk [.anchor .current, .keyed .children (some (.name "a")) none false,
    .filter .children (.mk [.anchor .current, .keyed .children (some (.name "b")) none false] 11)
      false] 13
  have compiled : compile "@.a[?(@.b<=)]" = .ok plan := rfl
  have failed : compile (inFilter "@.a[?(@.b<=)]") =
      .error (.malformed 19 .expectedFilterEnd) := rfl
  obtain ⟨inner, stop, found, -⟩ := nested _ plan compiled
  rw [failed] at found
  cases found

end PathQuery
