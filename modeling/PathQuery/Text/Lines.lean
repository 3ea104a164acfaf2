/-!
# Lines

A payload is cut into lines at its maximal runs of newlines, so that a run of
several newlines separates two lines just as one does, and joined again with
one newline between neighbours.  There is always at least one line
(`splitLines_ne_nil`), and no line holds a newline (`newline_not_mem_splitLines`).
-/

set_option autoImplicit false

namespace PathQuery.Text

/-- Puts one character in front of text that is already cut.  The text behind a
newline starts with a further newline exactly if its first line is empty and
not the only one; the two newlines then belong to one run. -/
def linesCons (c : Char) (lines : List (List Char)) : List (List Char) :=
  if c = '\n' then
    match lines with
    | [] :: _ :: _ => lines
    | _ => [] :: lines
  else
    match lines with
    | [] => [[c]]
    | line :: rest => (c :: line) :: rest

def splitLines (text : List Char) : List (List Char) :=
  text.foldr linesCons [[]]

def joinLines (lines : List (List Char)) : List Char :=
  List.intercalate ['\n'] lines

@[simp] theorem splitLines_nil : splitLines [] = [[]] := rfl

@[simp] theorem splitLines_cons (c : Char) (text : List Char) :
    splitLines (c :: text) = linesCons c (splitLines text) := rfl

theorem splitLines_ne_nil (text : List Char) : splitLines text ≠ [] := by
  cases text with
  | nil => simp
  | cons c text =>
    rw [splitLines_cons]
    unfold linesCons
    split
    · split
      · rename_i same
        simp [same]
      · simp
    · split <;> simp

theorem newline_not_mem_splitLines {text line : List Char}
    (h : line ∈ splitLines text) : '\n' ∉ line := by
  induction text generalizing line with
  | nil =>
    rw [splitLines_nil, List.mem_singleton] at h
    simp [h]
  | cons c text ih =>
    rw [splitLines_cons] at h
    unfold linesCons at h
    by_cases newline : c = '\n'
    · rw [if_pos newline] at h
      split at h
      · exact ih h
      · rcases List.mem_cons.mp h with rfl | h
        · simp
        · exact ih h
    · rw [if_neg newline] at h
      split at h
      · simp only [List.mem_singleton] at h
        simp [h, Ne.symm newline]
      · rename_i first rest same
        rcases List.mem_cons.mp h with rfl | h
        · have tail : '\n' ∉ first := ih (by rw [same]; exact List.mem_cons_self)
          simp [Ne.symm newline, tail]
        · exact ih (by rw [same]; exact List.mem_cons_of_mem _ h)

end PathQuery.Text
