import Mathlib.Data.List.Basic
import PathQuery.Text.Lines

/-!
# Lines between runs of newlines

Splitting cuts a text exactly at its maximal runs of newlines (`atRuns_iff`), and
joining what was split leaves one newline of each run (`joinLines_splitLines`).
Lines may be changed one by one before they are joined: if none of them gets a
newline and only empty lines are made empty, the text is cut into the changed
lines again (`AtRuns.map`).
-/

set_option autoImplicit false

namespace PathQuery.Text

/-- Whether a text that is cut at its maximal runs of newlines has these lines. -/
inductive AtRuns : List Char → List (List Char) → Prop
  | last {line : List Char} (plain : '\n' ∉ line) : AtRuns line [line]
  | cut {line rest : List Char} {lines : List (List Char)} (further : Nat) (plain : '\n' ∉ line)
      (ends : rest.head? ≠ some '\n') (later : AtRuns rest lines) :
      AtRuns (line ++ '\n' :: (List.replicate further '\n' ++ rest)) (line :: lines)

theorem linesCons_of_ne {c : Char} (other : c ≠ '\n') (line : List Char)
    (rest : List (List Char)) : linesCons c (line :: rest) = (c :: line) :: rest := by
  simp [linesCons, other]

namespace AtRuns

variable {text : List Char} {lines : List (List Char)}

theorem lines_ne_nil (runs : AtRuns text lines) : lines ≠ [] := by
  cases runs <;> simp

theorem head_eq_nil (runs : AtRuns text ([] :: lines)) :
    (text = [] ∧ lines = []) ∨ text.head? = some '\n' := by
  cases runs with
  | last plain => exact .inl ⟨rfl, rfl⟩
  | cut further plain ends later => exact .inr rfl

theorem cons_newline (runs : AtRuns text lines) : AtRuns ('\n' :: text) (linesCons '\n' lines) := by
  have apart : text.head? ≠ some '\n' → AtRuns ('\n' :: text) ([] :: lines) :=
    fun ends => cut 0 List.not_mem_nil ends runs
  -- only an empty first line that is not the only one takes the newline into its run
  cases runs with
  | last plain =>
    have kept : linesCons '\n' [text] = [[], text] := by cases text <;> rfl
    rw [kept]
    exact apart fun first => plain (List.mem_of_mem_head? first)
  | @cut line rest lines further plain ends later =>
    cases line with
    | nil =>
      obtain ⟨next, more, rfl⟩ := List.exists_cons_of_ne_nil later.lines_ne_nil
      exact cut (further + 1) plain ends later
    | cons c line =>
      refine apart fun first => plain ?_
      rw [← Option.some.inj first]
      exact List.mem_cons_self ..

theorem cons_of_ne {c : Char} (other : c ≠ '\n') (runs : AtRuns text lines) :
    AtRuns (c :: text) (linesCons c lines) := by
  have longer : ∀ {line : List Char}, '\n' ∉ line → '\n' ∉ c :: line := fun plain listed =>
    (List.mem_cons.mp listed).elim other.symm plain
  cases runs with
  | last plain =>
    rw [linesCons_of_ne other]
    exact last (longer plain)
  | cut further plain ends later =>
    rw [linesCons_of_ne other]
    exact cut further (longer plain) ends later

end AtRuns

theorem atRuns_splitLines (text : List Char) : AtRuns text (splitLines text) := by
  induction text with
  | nil => exact .last (List.not_mem_nil)
  | cons c text ih =>
    rw [splitLines_cons]
    by_cases newline : c = '\n'
    · rw [newline]
      exact ih.cons_newline
    · exact ih.cons_of_ne newline

theorem splitLines_append {line text : List Char} {lines : List (List Char)} (plain : '\n' ∉ line)
    (behind : splitLines text = [] :: lines) : splitLines (line ++ text) = line :: lines := by
  induction line with
  | nil => exact behind
  | cons c line ih =>
    rw [List.mem_cons, not_or] at plain
    rw [List.cons_append, splitLines_cons, ih plain.2,
      linesCons_of_ne (Ne.symm plain.1)]

theorem splitLines_run {rest : List Char} (ends : rest.head? ≠ some '\n') (further : Nat) :
    splitLines ('\n' :: (List.replicate further '\n' ++ rest)) = [] :: splitLines rest := by
  obtain ⟨first, lines, split⟩ := List.exists_cons_of_ne_nil (splitLines_ne_nil rest)
  induction further with
  | zero =>
    have runs := atRuns_splitLines rest
    rw [List.replicate_zero, List.nil_append, splitLines_cons, split]
    rw [split] at runs
    cases first with
    | nil =>
      obtain ⟨-, rfl⟩ := runs.head_eq_nil.resolve_right ends
      rfl
    | cons c first => rfl
  | succ further ih =>
    rw [List.replicate_succ, List.cons_append, splitLines_cons, ih, split]
    rfl

theorem AtRuns.splitLines_eq {text : List Char} {lines : List (List Char)}
    (runs : AtRuns text lines) : splitLines text = lines := by
  induction runs with
  | @last line plain =>
    have alone := splitLines_append plain splitLines_nil
    rwa [List.append_nil] at alone
  | cut further plain ends later ih =>
    rw [splitLines_append plain (splitLines_run ends further), ih]

theorem atRuns_iff {text : List Char} {lines : List (List Char)} :
    AtRuns text lines ↔ splitLines text = lines := by
  constructor
  · exact AtRuns.splitLines_eq
  · rintro rfl
    exact atRuns_splitLines text

/-! ## Joining lines -/

theorem joinLines_cons {lines : List (List Char)} (some' : lines ≠ []) (line : List Char) :
    joinLines (line :: lines) = line ++ '\n' :: joinLines lines := by
  obtain ⟨next, more, rfl⟩ := List.exists_cons_of_ne_nil some'
  simp [joinLines, List.intercalate]

theorem joinLines_singleton (line : List Char) : joinLines [line] = line := by
  simp [joinLines, List.intercalate]

/-- A text with one newline in place of each run of newlines. -/
def collapseRuns : List Char → List Char
  | [] => []
  | c :: rest =>
    if c = '\n' ∧ rest.head? = some '\n' then collapseRuns rest else c :: collapseRuns rest

theorem collapseRuns_append {line : List Char} (plain : '\n' ∉ line) (text : List Char) :
    collapseRuns (line ++ text) = line ++ collapseRuns text := by
  induction line with
  | nil => rfl
  | cons c line ih =>
    rw [List.mem_cons, not_or] at plain
    rw [List.cons_append, collapseRuns, if_neg fun both => plain.1 both.1.symm, ih plain.2,
      List.cons_append]

theorem collapseRuns_run {rest : List Char} (ends : rest.head? ≠ some '\n') (further : Nat) :
    collapseRuns ('\n' :: (List.replicate further '\n' ++ rest)) = '\n' :: collapseRuns rest := by
  induction further with
  | zero => rw [List.replicate_zero, List.nil_append, collapseRuns, if_neg fun both => ends both.2]
  | succ further ih =>
    rw [List.replicate_succ, List.cons_append, collapseRuns, if_pos ⟨rfl, rfl⟩, ih]

theorem AtRuns.joinLines_eq {text : List Char} {lines : List (List Char)}
    (runs : AtRuns text lines) : joinLines lines = collapseRuns text := by
  induction runs with
  | @last line plain =>
    have alone := collapseRuns_append plain []
    rw [List.append_nil, collapseRuns, List.append_nil] at alone
    rw [joinLines_singleton, alone]
  | cut further plain ends later ih =>
    rw [joinLines_cons later.lines_ne_nil, collapseRuns_append plain, collapseRuns_run ends, ih]

theorem joinLines_splitLines (text : List Char) :
    joinLines (splitLines text) = collapseRuns text :=
  (atRuns_splitLines text).joinLines_eq

section Map

variable {change : List Char → List Char}

theorem head?_joinLines_map {text : List Char} {lines : List (List Char)}
    (runs : AtRuns text lines) (ends : text.head? ≠ some '\n')
    (plain : ∀ line ∈ lines, '\n' ∉ change line)
    (some' : ∀ line ∈ lines, line ≠ [] → change line ≠ []) :
    (joinLines (lines.map change)).head? ≠ some '\n' := by
  obtain ⟨first, lines, rfl⟩ := List.exists_cons_of_ne_nil runs.lines_ne_nil
  have plain' := plain first (List.mem_cons_self ..)
  cases lines with
  | nil =>
    rw [List.map_singleton, joinLines_singleton]
    exact fun head => plain' (List.mem_of_mem_head? head)
  | cons next more =>
    have further : first ≠ [] := by
      rintro rfl
      rcases runs.head_eq_nil with ⟨-, none⟩ | head
      · cases none
      · exact ends head
    obtain ⟨c, rest, shape⟩ :=
      List.exists_cons_of_ne_nil (some' first (List.mem_cons_self ..) further)
    rw [List.map_cons, joinLines_cons (by simp), shape]
    intro head
    refine plain' ?_
    rw [shape, ← Option.some.inj head]
    exact List.mem_cons_self ..

/-- Lines that stay free of newlines, and do not become empty, stay the lines of what they are
joined to. -/
theorem AtRuns.map {text : List Char} {lines : List (List Char)} (runs : AtRuns text lines)
    (plain : ∀ line ∈ lines, '\n' ∉ change line)
    (some' : ∀ line ∈ lines, line ≠ [] → change line ≠ []) :
    AtRuns (joinLines (lines.map change)) (lines.map change) := by
  induction runs with
  | @last line _ =>
    rw [List.map_singleton, joinLines_singleton]
    exact .last (plain line (List.mem_singleton_self line))
  | cut further _ ends later ih =>
    obtain ⟨first, plain⟩ := List.forall_mem_cons.mp plain
    obtain ⟨-, some'⟩ := List.forall_mem_cons.mp some'
    rw [List.map_cons, joinLines_cons (by simpa using later.lines_ne_nil)]
    exact .cut 0 first (head?_joinLines_map later ends plain some') (ih plain some')

end Map

end PathQuery.Text
