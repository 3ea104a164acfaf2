import PathQuery.Proofs.Query.Grammar

/-!
# Reading quoted keys

The compiler cuts a key into slices and joins them at the end; this gives what
reading it one character at a time gives (`scan_eq_decode`).  And that reads
exactly what the grammar lets stand between the quotes (`read_eq_ok_iff`), and
an encoded key as the key, wherever it stands in a query (`read_exact`).
-/

set_option autoImplicit false

namespace PathQuery.QuotedKey

open Grammar

theorem isEscapable_iff (c : Char) : isEscapable c = true ↔ c = '\'' ∨ c = '\\' := by
  simp [isEscapable]

def behind (part : List Char) (result : List Char × Cursor) : List Char × Cursor :=
  (part ++ result.1, result.2)

theorem behind_map_push (part : List Char) (c : Char)
    (result : Except CompileError (List Char × Cursor)) :
    (result.map (push c)).map (behind part) = result.map (behind (part ++ [c])) := by
  cases result with
  | error e => rfl
  | ok found => simp [Except.map, behind, push]

theorem close_eq_map_behind (key : List Char) (offset : Nat) (text : List Char) :
    close key offset text = (close [] offset text).map (behind key) := by
  rcases text with _ | ⟨c, rest⟩
  · rfl
  · by_cases bracket : c = ']'
    · subst bracket
      simp [close, Except.map, behind]
    · simp [close, bracket, Except.map]

/-- The slice at hand ends where the text to be read starts. -/
theorem scan_eq_decode (slices : List (List Char)) (mark : List Char) (length offset : Nat)
    (text : List Char) (slice : mark.drop length = text) :
    scan slices mark length offset text =
      (decode offset text).map (behind (slices ++ [mark.take length]).flatten) := by
  induction slices, mark, length, offset, text using scan.induct with
  | case1 => rfl
  | case2 => rfl
  | case3 slices mark length offset c quote =>
    simp only [scan, decode, if_neg quote]
    rfl
  | case4 slices mark length offset next rest =>
    rw [scan, decode, if_pos rfl, if_pos rfl, close_eq_map_behind]
  | case5 slices mark length offset c next rest quote escape ih =>
    rw [scan, decode, if_neg quote, if_neg quote, if_pos escape, if_pos escape,
      behind_map_push, ih (by simp)]
    simp
  | case6 slices mark length offset c next rest quote escape ih =>
    have grown : mark.take (length + 1) = mark.take length ++ [c] := by
      rw [List.take_add, slice]
      rfl
    have shrunk : mark.drop (length + 1) = next :: rest := by
      rw [← List.drop_drop, slice]
      rfl
    rw [scan, decode, if_neg quote, if_neg quote, if_neg escape, if_neg escape,
      behind_map_push, ih shrunk, grown]
    simp

theorem read_eq_decode (cursor : Cursor) : read cursor = decode cursor.offset cursor.rest := by
  rw [read, scan_eq_decode [] cursor.rest 0 cursor.offset cursor.rest rfl]
  cases decode cursor.offset cursor.rest <;> rfl

theorem map_push_eq_ok {c : Char} {result : Except CompileError (List Char × Cursor)}
    {key : List Char} {there : Cursor} (found : result.map (push c) = .ok (key, there)) :
    ∃ rest, key = c :: rest ∧ result = .ok (rest, there) := by
  cases result with
  | error e => cases found
  | ok pair =>
    cases found
    exact ⟨pair.1, rfl, rfl⟩

theorem close_eq_ok {key : List Char} {offset : Nat} {text : List Char} {there : Cursor}
    (found : close [] offset text = .ok (key, there)) :
    key = [] ∧ text = ']' :: there.rest ∧ there.offset = offset + 2 := by
  rcases text with _ | ⟨c, rest⟩
  · cases found
  · by_cases bracket : c = ']'
    · subst bracket
      cases found
      exact ⟨rfl, rfl, rfl⟩
    · simp [close, bracket] at found

theorem decode_sound {offset : Nat} {text key : List Char} {there : Cursor}
    (found : decode offset text = .ok (key, there)) :
    ∃ body, Spells body key ∧ Word (body ++ ['\'', ']']) ⟨offset, text⟩ there := by
  induction offset, text using decode.induct generalizing key with
  | case1 => cases found
  | case2 => cases found
  | case3 offset c quote =>
    rw [decode, if_neg quote] at found
    cases found
  | case4 offset next rest =>
    rw [decode, if_pos rfl] at found
    obtain ⟨rfl, after, stop⟩ := close_eq_ok found
    refine ⟨[], .nil, ?_, stop⟩
    rw [after]
    rfl
  | case5 offset c next rest quote escape ih =>
    rw [decode, if_neg quote, if_pos escape] at found
    obtain ⟨tail, rfl, later⟩ := map_push_eq_ok found
    obtain ⟨body, spells, after, stop⟩ := ih later
    rw [Bool.and_eq_true, decide_eq_true_eq, isEscapable_iff] at escape
    obtain ⟨rfl, either⟩ := escape
    refine ⟨'\\' :: next :: body, .escaped either spells, ?_, ?_⟩
    · simpa using after
    · simp only [stop, List.length_append, List.length_cons]
      omega
  | case6 offset c next rest quote escape ih =>
    rw [decode, if_neg quote, if_neg escape] at found
    obtain ⟨tail, rfl, later⟩ := map_push_eq_ok found
    obtain ⟨body, spells, after, stop⟩ := ih later
    refine ⟨c :: body, ?_, ?_, ?_⟩
    · by_cases slash : c = '\\'
      · subst slash
        have ordinary : ¬ (next = '\'' ∨ next = '\\') := by
          simpa [isEscapable_iff] using escape
        rw [not_or] at ordinary
        -- the key does not end here, for a quote behind the backslash would be escaped
        cases body with
        | nil =>
          have closes : next = '\'' := (List.cons.inj after).1
          exact absurd closes ordinary.1
        | cons first body =>
          have same : next = first := (List.cons.inj after).1
          subst same
          exact .backslash ordinary.1 ordinary.2 spells
      · exact .plain quote slash spells
    · simpa using after
    · simp only [stop, List.length_append, List.length_cons]
      omega

theorem decode_plain {offset : Nat} {c : Char} {text : List Char} (more : text ≠ [])
    (quote : c ≠ '\'') (ordinary : c = '\\' → ∀ next, text.head? = some next →
      isEscapable next = false) :
    decode offset (c :: text) = (decode (offset + 1) text).map (push c) := by
  rcases text with _ | ⟨next, rest⟩
  · exact absurd rfl more
  · have unescaped : ¬ (c = '\\' && isEscapable next) = true := by
      intro escape
      rw [Bool.and_eq_true, decide_eq_true_eq] at escape
      have plain := ordinary escape.1 next rfl
      rw [plain] at escape
      exact absurd escape.2 Bool.false_ne_true
    rw [decode, if_neg quote, if_neg unescaped]

theorem decode_complete {body key : List Char} (spells : Spells body key) :
    ∀ (offset : Nat) (rest : List Char), decode offset (body ++ '\'' :: ']' :: rest) =
      .ok (key, ⟨offset + body.length + 2, rest⟩) := by
  induction spells with
  | nil => intro offset rest; rfl
  | @escaped c body key either _ ih =>
    intro offset rest
    have escape : ('\\' = '\\' && isEscapable c) = true := by
      rw [Bool.and_eq_true, isEscapable_iff]
      exact ⟨rfl, either⟩
    rw [List.cons_append, List.cons_append, decode, if_neg (by decide), if_pos escape, ih]
    simp only [Except.map, push, List.length_cons]
    congr 3
    omega
  | plain quote slash _ ih =>
    intro offset rest
    rw [List.cons_append, decode_plain (by simp) quote fun same => absurd same slash, ih]
    simp only [Except.map, push, List.length_cons]
    congr 3
    omega
  | @backslash c body key quote slash _ ih =>
    intro offset rest
    have ordinary : isEscapable c = false := by
      rw [Bool.eq_false_iff, Ne, isEscapable_iff, not_or]
      exact ⟨quote, slash⟩
    rw [List.cons_append, decode_plain (by simp) (by decide) fun _ next first => ?_, ih]
    · simp only [Except.map, push, List.length_cons]
      congr 3
      omega
    · have same : c = next := Option.some.inj first
      rw [← same, ordinary]

theorem read_eq_ok_iff {here there : Cursor} {key : List Char} :
    read here = .ok (key, there) ↔
      ∃ body, Spells body key ∧ Word (body ++ ['\'', ']']) here there := by
  rw [read_eq_decode]
  constructor
  · exact decode_sound
  · intro between
    obtain ⟨body, spells, text, offset⟩ := between
    have shape : body ++ ['\'', ']'] ++ there.rest = body ++ '\'' :: ']' :: there.rest := by simp
    have stop : there = ⟨here.offset + body.length + 2, there.rest⟩ := by
      cases there
      simp only [List.length_append, List.length_cons, List.length_nil] at offset
      simp [offset]
      omega
    rw [text, shape, decode_complete spells here.offset there.rest, ← stop]

/-! ## Encoded keys -/

theorem spells_encode (key : List Char) : Spells (encode key) key := by
  induction key with
  | nil => exact .nil
  | cons c key ih =>
    rw [encode, List.flatMap_cons]
    by_cases special : isEscapable c = true
    · rw [if_pos special]
      exact .escaped ((isEscapable_iff c).mp special) ih
    · rw [if_neg special]
      rw [isEscapable_iff, not_or] at special
      exact .plain special.1 special.2 ih

/-- At any offset of any query the key is read as character by character, with the same end or
the same fault; and an encoded key between its quotes is read as the key, whatever stands in
front of it and behind it. -/
theorem read_exact :
    (∀ (query : String) (start : Nat),
      read ((Cursor.start query).advance start) = decode start (query.toList.drop start)) ∧
    ∀ before key after : List Char,
      read ((Cursor.start (String.ofList
          (before ++ ['[', '\''] ++ encode key ++ ['\'', ']'] ++ after))).advance
            (before.length + 2)) =
        .ok (key, ⟨before.length + 2 + (encode key).length + 2, after⟩) := by
  have agrees : ∀ (query : String) (start : Nat),
      read ((Cursor.start query).advance start) = decode start (query.toList.drop start) := by
    intro query start
    rw [read_eq_decode, Cursor.advance, Cursor.start]
    simp only [Nat.zero_add]
  refine ⟨agrees, fun before key after => ?_⟩
  have behind : (before ++ ['[', '\''] ++ encode key ++ ['\'', ']'] ++ after).drop
      (before.length + 2) = encode key ++ '\'' :: ']' :: after := by
    rw [List.append_assoc, List.append_assoc, List.drop_left' (by simp)]
    simp
  rw [agrees, String.toList_ofList, behind, decode_complete (spells_encode key)]

end PathQuery.QuotedKey
