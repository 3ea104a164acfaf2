import Mathlib.Data.List.Perm.Basic
import PathQuery.Expectation
import PathQuery.Proofs.Number.Numeral
import PathQuery.Proofs.Query.Failure
import PathQuery.Proofs.Query.Reach
import PathQuery.Proofs.Text.Delimited
import PathQuery.Proofs.Text.Quoted

/-!
# What meets an expectation

The text of a key tells the key and where it ends, so different paths have
different texts (`Path.display_inj`).  Paths that are compared by their sorted
texts are therefore compared as a multiset (`sortedTexts_eq_iff`).  No selected
path holds a truth value, so an expectation of names and numbers is met by the
expected paths and by no others (`check_met_iff`).
-/

set_option autoImplicit false

namespace PathQuery

open Text Numeral

namespace Key

def isName : Key → Bool
  | .name _ => true
  | _ => false

def chars (key : Key) : List Char := key.display.toList

theorem chars_name (text : String) : (name text).chars = displayChars text.toList := by
  rw [chars, display, quoted, String.toList_ofList]

theorem chars_index (position : Int) : (index position).chars = Number.intChars position := by
  rw [chars, display, String.toList_ofList]

theorem isPart_of_mem_chars {key : Key} (word : key.isName = false) {c : Char}
    (listed : c ∈ key.chars) : isPart c = true := by
  cases key with
  | name text => cases word
  | index position =>
    rw [chars_index] at listed
    exact @Numeral.isPart_of_mem_chars (.int position) c listed
  | flag value =>
    have letters : (flag value).chars.all isPart = true := by cases value <;> decide
    exact List.all_eq_true.mp letters c listed

theorem exists_head_of_chars (key : Key) :
    ∃ c more, key.chars = c :: more ∧ isPart c = !key.isName ∧ c ≠ ')' := by
  cases word : key.isName with
  | true =>
    cases key with
    | name text =>
      refine ⟨displayQuote text.toList,
        text.toList.flatMap (displayChar (displayQuote text.toList)) ++ [displayQuote text.toList],
        by rw [chars_name, displayChars, List.cons_append], ?_⟩
      rcases displayQuote_eq text.toList with single | double
      · rw [single]
        decide
      · rw [double]
        decide
    | _ => cases word
  | false =>
    have some' : key.chars ≠ [] := by
      cases key with
      | name text => cases word
      | index position =>
        rw [chars_index]
        exact chars_ne_nil (.int position)
      | flag value => cases value <;> decide
    obtain ⟨c, more, shape⟩ := List.exists_cons_of_ne_nil some'
    have part : isPart c = true := isPart_of_mem_chars word (by simp [shape])
    refine ⟨c, more, shape, part, ?_⟩
    rintro rfl
    cases part

theorem isName_eq_of_append_eq {key other : Key} {rest rest' : List Char}
    (same : key.chars ++ rest = other.chars ++ rest') : key.isName = other.isName := by
  obtain ⟨c, more, shape, part, -⟩ := exists_head_of_chars key
  obtain ⟨d, more', shape', part', -⟩ := exists_head_of_chars other
  rw [shape, shape', List.cons_append, List.cons_append] at same
  rw [(List.cons.inj same).1, part', Bool.not_inj_iff] at part
  exact part.symm

theorem eq_of_chars_eq {key other : Key} (word : key.isName = false) (word' : other.isName = false)
    (same : key.chars = other.chars) : key = other := by
  have letter : ∀ (position : Int) (value : Bool), (index position).chars ≠ (flag value).chars := by
    intro position value equal
    obtain ⟨c, listed, shown⟩ : ∃ c ∈ (flag value).chars, ¬ (c.isDigit = true ∨ c = '-') := by
      cases value
      · exact ⟨'F', by decide, by decide⟩
      · exact ⟨'T', by decide, by decide⟩
    rw [← equal, chars_index] at listed
    exact shown (digit_or_minus_of_mem_intChars listed)
  cases key with
  | name text => cases word
  | index position =>
    cases other with
    | name text => cases word'
    | index position' =>
      rw [chars_index, chars_index] at same
      rw [intChars_inj same]
    | flag value => exact (letter position value same).elim
  | flag value =>
    cases other with
    | name text => cases word'
    | index position => exact (letter position value same.symm).elim
    | flag value' => cases value <;> cases value' <;> first | rfl | exact absurd same (by decide)

theorem told_chars (key : Key) : Told (Breaks isPart) chars key := by
  intro other rest rest' breaks breaks' same
  have kinds := isName_eq_of_append_eq same
  cases word : key.isName with
  | true =>
    cases key with
    | name text =>
      cases other with
      | name text' =>
        rw [chars_name, chars_name] at same
        obtain ⟨texts, rests⟩ := displayChars_append_inj same
        exact ⟨by rw [String.toList_inj.mp texts], rests⟩
      | _ => cases kinds
    | _ => cases word
  | false =>
    have word' : other.isName = false := by rw [← kinds, word]
    obtain ⟨words, rests⟩ := run_append_inj (fun c => isPart_of_mem_chars word)
      (fun c => isPart_of_mem_chars word') breaks breaks' same
    exact ⟨eq_of_chars_eq word word' words, rests⟩

end Key

namespace Path

theorem toList_display_single (key : Key) :
    (display [key]).toList = '(' :: (key.chars ++ [',', ')']) := by
  simp [display, Key.chars]

theorem toList_display {path : Path} (several : path.length ≠ 1) :
    (display path).toList = '(' :: ([',', ' '].intercalate (path.map Key.chars) ++ [')']) := by
  have texts : (path.map Key.display).map String.toList = path.map Key.chars := by
    rw [List.map_map]
    rfl
  rw [display]
  · rw [String.toList_append, String.toList_append, String.toList_intercalate, texts]
    rfl
  · rintro key rfl
    exact several rfl

theorem chars_append_ne (key : Key) (rest rest' : List Char) : key.chars ++ rest ≠ ')' :: rest' := by
  obtain ⟨c, more, shape, -, other⟩ := key.exists_head_of_chars
  rw [shape]
  exact fun same => other (List.cons.inj same).1

theorem single_ne {key : Key} {path : Path} (several : path.length ≠ 1) :
    key.chars ++ [',', ')'] ≠ [',', ' '].intercalate (path.map Key.chars) ++ [')'] := by
  intro same
  cases path with
  | nil => exact chars_append_ne key _ _ same
  | cons first path =>
    rw [intercalate_cons_append] at same
    cases path with
    | nil => exact several rfl
    | cons second path =>
      obtain ⟨-, tails⟩ := key.told_chars first _ _ (breaks_cons rfl _) (breaks_cons rfl _) same
      cases (List.cons.inj (List.cons.inj tails).2).1

theorem display_inj {path other : Path} (same : path.display = other.display) : path = other := by
  have texts := congrArg String.toList same
  by_cases single : path.length = 1
  · obtain ⟨key, rfl⟩ := List.length_eq_one_iff.mp single
    by_cases single' : other.length = 1
    · obtain ⟨key', rfl⟩ := List.length_eq_one_iff.mp single'
      rw [toList_display_single, toList_display_single] at texts
      obtain ⟨keys, -⟩ := key.told_chars key' _ _ (breaks_cons rfl _) (breaks_cons rfl _)
        (List.cons.inj texts).2
      rw [keys]
    · rw [toList_display_single, toList_display single'] at texts
      exact (single_ne single' (List.cons.inj texts).2).elim
  · by_cases single' : other.length = 1
    · obtain ⟨key', rfl⟩ := List.length_eq_one_iff.mp single'
      rw [toList_display_single, toList_display single] at texts
      exact (single_ne single (List.cons.inj texts).2.symm).elim
    · rw [toList_display single, toList_display single'] at texts
      exact (intercalate_append_inj (breaks_cons rfl) (fun rest => breaks_cons rfl _)
        (fun _ _ => by simp) chars_append_ne (fun key _ => key.told_chars)
        (List.cons.inj texts).2).1

end Path

/-! ## Expectations -/

namespace Expectation

theorem sortedTexts_perm (paths : List Path) :
    (sortedTexts paths).Perm (paths.map Path.display) := List.mergeSort_perm _ _

theorem pairwise_sortedTexts (paths : List Path) : (sortedTexts paths).Pairwise (· ≤ ·) := by
  have sorted : (sortedTexts paths).Pairwise fun a b => decide (a ≤ b) = true := by
    refine List.pairwise_mergeSort (fun a b c below below' => ?_) (fun a b => ?_) _
    · rw [decide_eq_true_eq] at below below' ⊢
      exact String.le_trans below below'
    · rw [Bool.or_eq_true, decide_eq_true_eq, decide_eq_true_eq]
      exact String.le_total a b
  exact sorted.imp of_decide_eq_true

theorem sortedTexts_eq_iff {paths others : List Path} :
    sortedTexts paths = sortedTexts others ↔ paths.Perm others := by
  have texts : (paths.map Path.display).Perm (others.map Path.display) ↔ paths.Perm others :=
    List.map_perm_map_iff fun _ _ => Path.display_inj
  rw [← texts]
  constructor
  · intro same
    have first := sortedTexts_perm paths
    rw [same] at first
    exact first.symm.trans (sortedTexts_perm others)
  · intro alike
    exact List.Perm.eq_of_pairwise (fun a b _ _ => String.le_antisymm)
      (pairwise_sortedTexts paths) (pairwise_sortedTexts others)
      ((sortedTexts_perm paths).trans (alike.trans (sortedTexts_perm others).symm))

theorem sameInOrder_iff {paths others : List Path} (plain : ∀ path ∈ paths, path.Plain)
    (plain' : ∀ path ∈ others, path.Plain) : sameInOrder paths others = true ↔ paths = others := by
  have kept : ∀ paths : List Path, (∀ path ∈ paths, path.Plain) →
      paths.map (List.map Key.withoutFlag) = paths := fun paths plain =>
    (List.map_congr_left fun path listed => (plain path listed).map_withoutFlag).trans
      (List.map_id' paths)
  rw [sameInOrder, kept paths plain, kept others plain', decide_eq_true_eq]

/-- Only where order counts is a truth value the number it stands for. -/
example : sameInOrder [[.flag true]] [[.index 1]] = true ∧
    Path.display [.flag true] ≠ Path.display [.index 1] := by decide

theorem agree_iff {ordered : Bool} {expected actual : List Path}
    (plain : ∀ path ∈ expected, path.Plain) (plain' : ∀ path ∈ actual, path.Plain) :
    agree ordered expected actual = true ↔
      if ordered then actual = expected else actual.Perm expected := by
  cases ordered with
  | true => exact sameInOrder_iff plain' plain
  | false =>
    rw [agree, if_neg (by decide), if_neg (by decide), decide_eq_true_eq]
    exact sortedTexts_eq_iff

/-- An expectation is met if the query has a plan that comes to an answer and selects the expected
paths: one by one if their order counts, else each of them as often as it is expected.  The sorted
texts are those of one multiset of paths. -/
theorem check_met_iff (query : String) {document : Json} (wf : document.WellFormed)
    {expected : List Path} (plain : ∀ path ∈ expected, path.Plain) (ordered : Bool) :
    (check query document expected ordered = .ok none ↔
      ∃ plan, compile query = .ok plan ∧
        plan.select? document [] = .ok (plan.select document []) ∧
        if ordered then plan.select document [] = expected
        else (plan.select document []).Perm expected) ∧
      ∀ paths others : List Path, sortedTexts paths = sortedTexts others ↔ paths.Perm others := by
  refine ⟨?_, fun _ _ => sortedTexts_eq_iff⟩
  rw [check, compile?]
  cases compiled : compile query with
  | error e => cases e <;> simp [withPlan, Except.mapError, bind, Except.bind]
  | ok plan =>
    have agrees := @agree_iff ordered expected (plan.select document []) plain
      fun path listed => Path.plain_of_get? (reaches_of_mem_select compiled wf listed).2.2
    dsimp only
    rw [withPlan_eq_ok_iff]
    dsimp only
    constructor
    · intro met
      cases found : plan.select? document [] with
      | error e =>
        rw [found] at met
        cases met
      | ok paths =>
        obtain rfl := (plan.agrees_select? document []).sound paths found
        refine ⟨plan, rfl, found, agrees.mp ?_⟩
        by_contra differs
        simp [found, Except.map, differs] at met
    · rintro ⟨found, ⟨⟩, answers, same⟩
      simp [answers, Except.map, agrees.mpr same]

theorem check_met_iff_quotes :
    let document : Json := .obj [("', '", .null), ("\"\\", .arr [.null])]
    let expected : List Path := [[.name "\"\\"], [.name "', '"]]
    document.WellFormed ∧ (∀ path ∈ expected, path.Plain) ∧
      check "$.*" document expected false = .ok none := by
  intro document expected
  have wf : document.WellFormed := by
    simp [document, Json.WellFormed, Json.ElementsWellFormed, Json.MembersWellFormed]
  have plain : ∀ path ∈ expected, path.Plain := by simp [expected, Path.Plain]
  exact ⟨wf, plain, (check_met_iff "$.*" wf plain false).1.mpr
    ⟨.mk [.anchor .root, .keyed .children (some .wildcard) none false] 3, rfl, rfl, .swap ..⟩⟩

end Expectation

end PathQuery
