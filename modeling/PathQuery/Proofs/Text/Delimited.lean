import Mathlib.Data.List.TakeWhile

/-!
# Where texts end

A text can tell where it ends although more text stands behind it.  A word does
if no character that may stand in a word comes behind it
(`run_append_inj`).  Where each text of a list tells its end, so do all of them
together, with separators between them and a closing character behind them
(`intercalate_append_inj`).
-/

set_option autoImplicit false

namespace PathQuery

theorem takeWhile_append_eq {p : Char → Bool} {word rest : List Char}
    (inside : ∀ c ∈ word, p c = true) (outside : ∀ c, rest.head? = some c → p c = false) :
    (word ++ rest).takeWhile p = word := by
  rw [List.takeWhile_append_of_pos inside]
  cases rest with
  | nil => simp
  | cons c more => simp [outside c rfl]

namespace Text

/-- Whether a text starts with nothing that a word could go on with. -/
def Breaks (inside : Char → Bool) (text : List Char) : Prop :=
  ∀ c, text.head? = some c → inside c = false

theorem breaks_cons {inside : Char → Bool} {c : Char} (outside : inside c = false)
    (rest : List Char) : Breaks inside (c :: rest) := by
  rintro d ⟨⟩
  exact outside

theorem run_append_inj {inside : Char → Bool} {run other rest rest' : List Char}
    (runs : ∀ c ∈ run, inside c = true) (runs' : ∀ c ∈ other, inside c = true)
    (breaks : Breaks inside rest) (breaks' : Breaks inside rest')
    (same : run ++ rest = other ++ rest') : run = other ∧ rest = rest' := by
  have words : run = other := by
    rw [← takeWhile_append_eq runs breaks, same, takeWhile_append_eq runs' breaks']
  subst words
  exact ⟨rfl, List.append_cancel_left same⟩

/-- Whether the text of a value tells the value and its own end, if what stands behind it is as
asked. -/
def Told {α : Type} (behind : List Char → Prop) (text : α → List Char) (value : α) : Prop :=
  ∀ (other : α) (rest rest' : List Char), behind rest → behind rest' →
    text value ++ rest = text other ++ rest' → value = other ∧ rest = rest'

section List

variable {α : Type} {behind : List Char → Prop} {text : α → List Char} {separator : List Char}
  {close : Char}

def afterFirst (text : α → List Char) (separator : List Char) (more : List α)
    (rest : List Char) : List Char :=
  if more.isEmpty then rest else separator ++ (separator.intercalate (more.map text) ++ rest)

theorem intercalate_cons_append (value : α) (more : List α) (rest : List Char) :
    separator.intercalate ((value :: more).map text) ++ rest =
      text value ++ afterFirst text separator more rest := by
  cases more with
  | nil => simp [afterFirst]
  | cons next more => simp [afterFirst, List.intercalate_cons_cons]

/-- The texts of a list are told together if a separator and the closing character are told
apart, and no text starts with the closing character. -/
theorem intercalate_append_inj (closes : ∀ rest, behind (close :: rest))
    (separates : ∀ rest, behind (separator ++ rest))
    (apart : ∀ rest rest', separator ++ rest ≠ close :: rest')
    (opens : ∀ value rest rest', text value ++ rest ≠ close :: rest') {values : List α}
    (told : ∀ value ∈ values, Told behind text value) {others : List α} {rest rest' : List Char}
    (same : separator.intercalate (values.map text) ++ close :: rest =
      separator.intercalate (others.map text) ++ close :: rest') :
    values = others ∧ rest = rest' := by
  have follows : ∀ (more : List α) (rest : List Char),
      behind (afterFirst text separator more (close :: rest)) := by
    intro more rest
    cases more with
    | nil => exact closes rest
    | cons next more => exact separates _
  induction values generalizing others with
  | nil =>
    cases others with
    | nil => exact ⟨rfl, (List.cons.inj same).2⟩
    | cons other others =>
      rw [intercalate_cons_append] at same
      exact (opens _ _ _ same.symm).elim
  | cons value values ih =>
    obtain ⟨first, later⟩ := List.forall_mem_cons.mp told
    cases others with
    | nil =>
      rw [intercalate_cons_append] at same
      exact (opens _ _ _ same).elim
    | cons other others =>
      rw [intercalate_cons_append, intercalate_cons_append] at same
      obtain ⟨rfl, tails⟩ := first other _ _ (follows values rest) (follows others rest') same
      -- behind the first value both lists end, or both go on with a separator
      cases values with
      | nil =>
        cases others with
        | nil => exact ⟨rfl, (List.cons.inj tails).2⟩
        | cons next' more' => exact (apart _ _ tails.symm).elim
      | cons next more =>
        cases others with
        | nil => exact (apart _ _ tails).elim
        | cons next' more' =>
          obtain ⟨lists, rests⟩ := ih later (List.append_cancel_left tails)
          exact ⟨by rw [lists], rests⟩

end List

end Text

end PathQuery
