import PathQuery.Proofs.Query.Front

/-!
# A bracket behind a query

What a bracket behind a front opens is read there as it is read behind any
other step (`ReadsOn`): a front and the text behind it have a plan exactly if
the text is read on (`Front.compile_iff`).  So the text may be taken from one
front to another, and a step may be put between the two (`ReadsOn.behind_star`).
-/

set_option autoImplicit false

namespace PathQuery

open Grammar Compile Evaluate

theorem accessor?_bracket_ne_none {inner : Cursor → Except CompileError Parsed} {here : Cursor}
    {more : List Char} (text : here.rest = '[' :: more) : accessor? inner here ≠ .ok none := by
  intro none'
  rw [accessor?, text] at none'
  obtain ⟨pair, -, same⟩ := map_eq_ok none'
  cases same

theorem skipBlanks_bracket {here : Cursor} {more : List Char} (text : here.rest = '[' :: more) :
    here.skipBlanks = here := by
  refine skipBlanks_eq ⟨[], nofun, rfl, rfl⟩ fun c first => ?_
  rw [text] at first
  cases first
  decide

theorem Behind.steps_ne_nil {last : Step} {here there : Cursor} {steps : List Step}
    {compared : Bool} (behind : Behind last here steps compared there) : steps ≠ [] := by
  cases behind <;> exact List.cons_ne_nil _ _

theorem accessors_bracket {size : Nat} {last : Step} {here : Cursor} {more : List Char}
    {parsed : Parsed} (text : here.rest = '[' :: more)
    (found : accessors size last here = .ok parsed) :
    ∃ rest, rest ≠ [] ∧ parsed.steps = last :: rest := by
  cases size with
  | zero => cases found
  | succ size =>
    rcases accessors_eq_ok_iff.mp found with ⟨read, -⟩ | ⟨step, there, later, -, behind, rfl⟩
    · rw [skipBlanks_bracket text] at read
      exact absurd read (accessor?_bracket_ne_none text)
    · exact ⟨later.steps, (accessors_sound _ _ _ _ behind).steps_ne_nil, rfl⟩

section Split

variable {distance : Nat} {more : List Char}

theorem accessor?_place_bracket {fuel size : Nat} {here there : Cursor} {step : Step}
    {tail : Parsed}
    (found : accessor? (query (accessors fuel)) here.skipBlanks = .ok (some (step, there)))
    (behind : accessors fuel step there = .ok tail) (ends : tail.rest.rest = [])
    (settled : Settled ('[' :: more) here.rest)
    (room : here.rest.length + ('[' :: more).length ≤ size) :
    accessor? (query (accessors size)) (here.place distance ('[' :: more)).skipBlanks =
      .ok (some (step.shift distance, there.place distance ('[' :: more))) := by
  have blanks := blanks_skipBlanks here
  have inside := blanks.follows.suffix
  have edge : ∀ c, (there.place distance ('[' :: more)).rest.head? = some c →
      isWordPart c = false := by
    intro c first
    have plain := (accessors_sound fuel _ _ _ behind).edge (.inr (.inl ends))
    rw [Cursor.place, List.head?_append] at first
    cases left : there.rest.head? with
    | none =>
      rw [left] at first
      cases first
      decide
    | some d =>
      rw [left] at first
      cases first
      exact plain _ left
  have placed := accessor?_place (accessors_place fuel size) found edge (settled.of_suffix inside)
    (Nat.le_trans (Nat.add_le_add_right inside.length_le _) room)
  have opens := (accessor?_sound (fun _ _ => query_sound (accessors_sound size)) placed).opens
  rwa [← skipBlanks_eq blanks.place opens.fresh] at placed

/-- Where a text is read to its end, and also with a bracket behind it, the reader comes to the
bracket with the steps that it had at the end. -/
theorem accessors_split (fuel : Nat) :
    ∀ size last here parsed whole, accessors fuel last here = .ok parsed →
      parsed.compared = false → parsed.rest.rest = [] → Settled ('[' :: more) here.rest →
      here.rest.length + ('[' :: more).length < size →
      accessors size (last.shift distance) (here.place distance ('[' :: more)) = .ok whole →
      ∃ size' last' rest, whole.steps = parsed.steps.map (Step.shift distance) ++ rest ∧
        accessors size' last' (parsed.rest.place distance ('[' :: more)) =
          .ok { whole with steps := last' :: rest } := by
  induction fuel with
  | zero =>
    intro size last here parsed whole found
    cases found
  | succ fuel ih =>
    intro size last here parsed whole found plain ends settled room read
    obtain ⟨size, rfl⟩ := Nat.exists_eq_add_one_of_ne_zero (Nat.ne_zero_of_lt room)
    rcases accessors_eq_ok_iff.mp found with ⟨-, found⟩ | ⟨step, there, tail, first, behind, rfl⟩
    · obtain ⟨final, only, ending⟩ := finish_sound found
      rw [plain] at ending
      cases ending with
      | plain blanks =>
        rw [accessors_of_blanks blanks.place] at read
        have text : (parsed.rest.place distance ('[' :: more)).rest = '[' :: more := by
          rw [Cursor.place, ends, List.nil_append]
        obtain ⟨rest, -, steps⟩ := accessors_bracket text read
        refine ⟨size + 1, last.shift distance, rest, by rw [steps, only]; rfl, ?_⟩
        rw [← steps]
        exact read
    · obtain ⟨further, shorter⟩ := accessor?_progress first
      have placed : accessor? (query (accessors size))
          (here.place distance ('[' :: more)).skipBlanks =
            .ok (some (step.shift distance, there.place distance ('[' :: more))) :=
        accessor?_place_bracket first behind ends settled (Nat.le_of_lt_succ room)
      rcases accessors_eq_ok_iff.mp read with ⟨none', -⟩ | ⟨step', there', tail', next, read, rfl⟩
      · rw [placed] at none'
        cases none'
      · rw [placed] at next
        cases next
        obtain ⟨size', last', onward, steps, reads⟩ := ih size step there tail tail' behind plain
          ends (settled.of_suffix further) (by omega) read
        exact ⟨size', last', onward, by rw [steps]; rfl, reads⟩

end Split

/-- From an offset on, a text is read alike behind any step: these steps follow, and the query
ends there. -/
structure ReadsOn (offset : Nat) (text : List Char) (tail : Parsed) : Prop where
  read : ∀ last size, text.length < size →
    accessors size last ⟨offset, text⟩ = .ok { tail with steps := last :: tail.steps }
  goes : tail.steps ≠ []
  closed : Closed tail.compared tail.rest
  blank : ∀ c ∈ (stopOf tail).rest, Text.isBlank c = true

theorem ReadsOn.of_read {size offset : Nat} {last : Step} {text : List Char} {tail : Parsed}
    (found : accessors size last ⟨offset, text⟩ = .ok { tail with steps := last :: tail.steps })
    (goes : tail.steps ≠ []) (closed : Closed tail.compared tail.rest)
    (blank : ∀ c ∈ (stopOf tail).rest, Text.isBlank c = true) (distance : Nat) :
    ReadsOn (offset + distance) text (tail.place distance []) := by
  refine ⟨fun other size' room => ?_, by simpa [Parsed.place] using goes, closed.place_nil, ?_⟩
  · exact accessors_elsewhere found goes closed room distance other
  · have stop := stopOf_place distance tail (tail.steps.map (Step.shift distance))
    rw [Parsed.place, stop, Cursor.place_nil]
    exact blank

theorem ReadsOn.shift {offset : Nat} {text : List Char} {tail : Parsed}
    (reads : ReadsOn offset text tail) (distance : Nat) :
    ReadsOn (offset + distance) text (tail.place distance []) :=
  .of_read (reads.read (.anchor .current) _ (Nat.lt_succ_self _)) reads.goes reads.closed
    reads.blank distance

def everyStep : Step := .keyed .children (some .wildcard) none false

theorem ReadsOn.behind_star {offset : Nat} {text : List Char} {tail : Parsed}
    (reads : ReadsOn (offset + 3) text tail) :
    ReadsOn offset ('[' :: '*' :: ']' :: text) { tail with steps := everyStep :: tail.steps } := by
  refine ⟨fun last size room => ?_, List.cons_ne_nil _ _, reads.closed, reads.blank⟩
  obtain ⟨size, rfl⟩ := Nat.exists_eq_add_one_of_ne_zero (Nat.ne_zero_of_lt room)
  have here : Blanks ⟨offset, '[' :: '*' :: ']' :: text⟩ ⟨offset, '[' :: '*' :: ']' :: text⟩ :=
    ⟨[], nofun, rfl, rfl⟩
  have star : accessor? (query (accessors size)) ⟨offset, '[' :: '*' :: ']' :: text⟩ =
      .ok (some (everyStep, ⟨offset + 3, text⟩)) := rfl
  have behind := reads.read everyStep size (by simp only [List.length_cons] at room; omega)
  exact accessors_of_accessor here star behind

/-! ## Fronts -/

def stepCount (a : String) : Nat :=
  match compile a with
  | .ok plan => plan.steps.length
  | .error _ => 1

theorem Parsed.place_zero (parsed : Parsed) : parsed.place 0 [] = parsed := by
  rw [Parsed.place, map_shift_zero, Cursor.place_nil]
  rfl

theorem compile_eq_ok_iff_readsOn {text : String} {first : Step} {near : Cursor}
    {before : List Step} {offset : Nat} {more : List Char} (filled : text.toList ≠ [])
    (anchored : anchor (Cursor.start text) = (first, near)) (some' : before ≠ [])
    (split : ∀ parsed, accessors (text.length + 1) first near = .ok parsed →
      ∃ size last rest, parsed.steps = before ++ rest ∧
        accessors size last ⟨offset, '[' :: more⟩ = .ok { parsed with steps := last :: rest })
    (join : ∀ tail, ReadsOn offset ('[' :: more) tail →
      accessors (text.length + 1) first near = .ok { tail with steps := before ++ tail.steps })
    {plan : Plan} :
    compile text = .ok plan ↔ ∃ tail, ReadsOn offset ('[' :: more) tail ∧
      plan = .mk (before ++ tail.steps) (stopOf tail).offset := by
  rw [compile_eq_ok_iff_read]
  constructor
  · intro compiled
    obtain ⟨parsed, found, blank, rfl⟩ := compiled
    obtain ⟨-, first', near', anchored', read, -⟩ := query_eq_ok_iff.mp found
    rw [anchored] at anchored'
    cases anchored'
    obtain ⟨size, last, rest, steps, onward⟩ := split parsed read
    obtain ⟨rest', goes, same⟩ := accessors_bracket rfl onward
    cases same
    let tail : Parsed := { parsed with steps := rest }
    have closed := query_closed found blank
    change Closed tail.compared tail.rest at closed
    have reads : ReadsOn offset ('[' :: more) (tail.place 0 []) :=
      .of_read onward goes closed blank 0
    rw [Parsed.place_zero] at reads
    exact ⟨tail, reads, by rw [steps]; rfl⟩
  · intro reads
    obtain ⟨tail, reads, rfl⟩ := reads
    refine ⟨{ tail with steps := before ++ tail.steps }, ?_, reads.blank, rfl⟩
    refine query_eq_ok_iff.mpr ⟨filled, first, near, anchored, join tail reads, ?_⟩
    have one := List.length_pos_of_ne_nil some'
    have other := List.length_pos_of_ne_nil reads.goes
    rw [List.length_append]
    omega

section Front

variable {text : String} {more : List Char} (opens : text.toList = '[' :: more)

include opens

theorem compile_anchor_iff (a : String) {first : Step}
    (anchored : ∀ rest, anchor ⟨0, a.toList ++ '[' :: rest⟩ = (first, ⟨a.length, '[' :: rest⟩))
    {plan : Plan} :
    compile (a ++ text) = .ok plan ↔ ∃ tail, ReadsOn a.length ('[' :: more) tail ∧
      plan = .mk ([first] ++ tail.steps) (stopOf tail).offset := by
  have start : Cursor.start (a ++ text) = ⟨0, a.toList ++ '[' :: more⟩ := by
    rw [Cursor.start, String.toList_append, opens]
  have room : ('[' :: more).length < (a ++ text).length + 1 := by
    rw [String.length_append, ← String.length_toList, ← String.length_toList, opens]
    omega
  refine compile_eq_ok_iff_readsOn (by simp [String.toList_append, opens])
    (by rw [start, anchored]) (List.cons_ne_nil _ _) (fun parsed read => ?_) fun tail reads => ?_
  · obtain ⟨rest, -, steps⟩ := accessors_bracket rfl read
    refine ⟨(a ++ text).length + 1, first, rest, steps, ?_⟩
    rw [← steps]
    exact read
  · exact reads.read first _ room

theorem compile_query_iff {a : String} {steps : List Step}
    (read : query (accessors (a.length + 1)) (Cursor.start a) =
      .ok ⟨steps, false, ⟨a.length, []⟩⟩)
    (clear : ¬ EmptyOrder a.toList) {plan : Plan} :
    compile (a ++ text) = .ok plan ↔ ∃ tail, ReadsOn a.length ('[' :: more) tail ∧
      plan = .mk (steps ++ tail.steps) (stopOf tail).offset := by
  obtain ⟨filled, first, near, anchored, behind, long⟩ := query_eq_ok_iff.mp read
  obtain ⟨movement, rfl, written⟩ := anchor_sound anchored
  have inside : near.rest <:+ a.toList := written.follows.suffix
  have settled : Settled ('[' :: more) near.rest := Settled.of_suffix (.inr clear) inside
  have start : Cursor.start (a ++ text) = (Cursor.start a).place 0 ('[' :: more) := by
    simp [Cursor.start, Cursor.place, opens]
  have room : near.rest.length + ('[' :: more).length < (a ++ text).length + 1 := by
    have length := inside.length_le
    rw [String.length_append, ← String.length_toList, ← String.length_toList, opens]
    omega
  have some' : steps ≠ [] := List.ne_nil_of_length_pos (Nat.lt_of_lt_of_le Nat.zero_lt_two long)
  have whole : Cursor.place 0 ('[' :: more) ⟨a.length, []⟩ = ⟨a.length, '[' :: more⟩ := rfl
  have anchored' : anchor (Cursor.start (a ++ text)) =
      (.anchor movement, near.place 0 ('[' :: more)) := by
    rw [start, anchor_place anchored filled]
  refine compile_eq_ok_iff_readsOn (by simp [String.toList_append, opens]) anchored' some'
    (fun parsed found => ?_) fun tail reads => ?_
  · have split := accessors_split _ _ _ near _ parsed behind rfl rfl settled room found
    rwa [map_shift_zero, whole] at split
  · have joined := accessors_append tail (fun last size short => by
      rw [whole]
      exact reads.read last size short) reads.closed _ _ _ near _ behind rfl rfl settled room
    rwa [map_shift_zero] at joined

end Front

/-- Behind a front a text that starts with a bracket is read on, from the steps that find what the
front finds. -/
theorem Front.compile_iff {a : String} {find : Json → Path → List Path} (front : Front a find) :
    ∃ before, before.length = stepCount a ∧
      (∀ document current, selectSteps document current before [] = find document current) ∧
      ∀ (text : String) (more : List Char), text.toList = '[' :: more → ∀ plan,
        (compile (a ++ text) = .ok plan ↔ ∃ tail, ReadsOn a.length ('[' :: more) tail ∧
          plan = .mk (before ++ tail.steps) (stopOf tail).offset) := by
  cases front with
  | implicit =>
    refine ⟨[.anchor .current], rfl, fun _ _ => rfl, fun text more opens plan => ?_⟩
    exact compile_anchor_iff opens "" fun rest => rfl
  | current =>
    refine ⟨[.anchor .current], rfl, fun _ _ => rfl, fun text more opens plan => ?_⟩
    exact compile_anchor_iff opens "@" fun rest => rfl
  | root =>
    refine ⟨[.anchor .root], rfl, fun _ _ => rfl, fun text more opens plan => ?_⟩
    exact compile_anchor_iff opens "$" fun rest => rfl
  | query compiled uncompared clear =>
    obtain ⟨steps, read, rfl⟩ := exists_read_of_compile compiled uncompared
    refine ⟨steps, by rw [stepCount, compiled]; rfl, fun _ _ => rfl, fun text more opens plan => ?_⟩
    exact compile_query_iff opens read clear

end PathQuery
