import PathQuery.Proofs.Json.Escape

/-!
# Quoted displays told apart

However a character is displayed between quotes, it can be read back with
nothing taken from what stands behind it (`readChar_displayChar`), and no
display starts with the quote in use.  So a quoted display tells the string and
where it ends, whichever quote was chosen for it (`displayChars_append_inj`).
-/

set_option autoImplicit false

namespace PathQuery.Text

open Json.Escape

def hexNumber (digits : List Char) : Nat :=
  digits.foldl (fun value c => value * 16 + (hexValue? c).getD 0) 0

theorem hexNumber_hexDigits {width n : Nat} (small : n < Nat.pow 16 width) :
    hexNumber (hexDigits width n) = n := by
  induction width generalizing n with
  | zero =>
    have none : n = 0 := Nat.lt_one_iff.mp small
    rw [none]
    rfl
  | succ width ih =>
    have front : n / 16 < Nat.pow 16 width := by
      rw [Nat.div_lt_iff_lt_mul (by decide)]
      exact small
    have last : hexValue? (Nat.digitChar (n % 16)) = some (n % 16) :=
      hexValue?_digitChar (Nat.mod_lt n (by decide))
    have value := ih front
    rw [hexNumber] at value
    rw [hexDigits, hexNumber, List.foldl_append, value, List.foldl_cons, List.foldl_nil, last,
      Option.getD_some]
    omega

def readHex (width : Nat) (text : List Char) : Char × List Char :=
  (Char.ofNat (hexNumber (text.take width)), text.drop width)

theorem readHex_hexDigits {width : Nat} {c : Char} (small : c.toNat < Nat.pow 16 width)
    (rest : List Char) : readHex width (hexDigits width c.toNat ++ rest) = (c, rest) := by
  rw [readHex, List.take_left' (length_hexDigits ..), List.drop_left' (length_hexDigits ..),
    hexNumber_hexDigits small, Char.ofNat_toNat]

def readEscaped : List Char → Option (Char × List Char)
  | [] => none
  | letter :: rest =>
    if letter = 'n' then some ('\n', rest)
    else if letter = 'r' then some ('\r', rest)
    else if letter = 't' then some ('\t', rest)
    else if letter = 'x' then some (readHex 2 rest)
    else if letter = 'u' then some (readHex 4 rest)
    else if letter = 'U' then some (readHex 8 rest)
    else some (letter, rest)

def readChar : List Char → Option (Char × List Char)
  | [] => none
  | c :: rest => if c = '\\' then readEscaped rest else some (c, rest)

variable {quote : Char}

theorem readChar_displayChar (either : quote = '\'' ∨ quote = '"') (c : Char) (rest : List Char) :
    readChar (displayChar quote c ++ rest) = some (c, rest) := by
  have scalar : c.toNat < 0xD800 ∨ 0xDFFF < c.toNat ∧ c.toNat < 0x110000 := c.valid
  unfold displayChar
  split
  · rename_i special
    have known : c = '\'' ∨ c = '"' ∨ c = '\\' := by
      rcases special with rfl | rfl
      · exact either.imp_right .inl
      · exact .inr (.inr rfl)
    rcases known with rfl | rfl | rfl <;> rfl
  · rename_i plain
    rw [not_or] at plain
    split
    · rename_i newline
      rw [newline]
      rfl
    split
    · rename_i carriage
      rw [carriage]
      rfl
    split
    · rename_i tab
      rw [tab]
      rfl
    split
    · rw [List.singleton_append, readChar, if_neg plain.2]
    split
    · rename_i narrow
      exact congrArg some (@readHex_hexDigits 2 c narrow rest)
    split
    · rename_i narrow
      exact congrArg some (@readHex_hexDigits 4 c narrow rest)
    · have narrow : c.toNat < Nat.pow 16 8 := by
        have wide : Nat.pow 16 8 = 0x100000000 := rfl
        omega
      exact congrArg some (@readHex_hexDigits 8 c narrow rest)

theorem displayChar_append_inj (either : quote = '\'' ∨ quote = '"') {c d : Char}
    {rest rest' : List Char} (same : displayChar quote c ++ rest = displayChar quote d ++ rest') :
    c = d ∧ rest = rest' := by
  have read := congrArg readChar same
  rw [readChar_displayChar either, readChar_displayChar either] at read
  exact Prod.mk.inj (Option.some.inj read)

theorem displayChar_cases (quote c : Char) :
    (∃ more, displayChar quote c = '\\' :: more) ∨ c ≠ quote ∧ displayChar quote c = [c] := by
  unfold displayChar
  split
  · exact .inl ⟨[c], rfl⟩
  · rename_i plain
    rw [not_or] at plain
    repeat' split
    all_goals first
      | exact .inl ⟨_, rfl⟩
      | exact .inr ⟨plain.1, rfl⟩

theorem displayChar_append_ne (either : quote = '\'' ∨ quote = '"') (c : Char)
    (rest rest' : List Char) : displayChar quote c ++ rest ≠ quote :: rest' := by
  intro same
  rcases displayChar_cases quote c with ⟨more, escaped⟩ | ⟨other, plain⟩
  · rw [escaped] at same
    have slash : '\\' = quote := (List.cons.inj same).1
    rcases either with rfl | rfl <;> cases slash
  · rw [plain] at same
    exact other (List.cons.inj same).1

theorem displayQuote_eq (text : List Char) : displayQuote text = '\'' ∨ displayQuote text = '"' := by
  unfold displayQuote
  split
  · exact .inr rfl
  · exact .inl rfl

theorem flatMap_displayChar_append_inj (either : quote = '\'' ∨ quote = '"')
    {text other rest rest' : List Char}
    (same : text.flatMap (displayChar quote) ++ quote :: rest =
      other.flatMap (displayChar quote) ++ quote :: rest') : text = other ∧ rest = rest' := by
  induction text generalizing other with
  | nil =>
    cases other with
    | nil => exact ⟨rfl, (List.cons.inj same).2⟩
    | cons d other =>
      rw [List.flatMap_cons, List.append_assoc] at same
      exact (displayChar_append_ne either d _ _ same.symm).elim
  | cons c text ih =>
    rw [List.flatMap_cons, List.append_assoc] at same
    cases other with
    | nil => exact (displayChar_append_ne either c _ _ same).elim
    | cons d other =>
      rw [List.flatMap_cons, List.append_assoc] at same
      obtain ⟨rfl, later⟩ := displayChar_append_inj either same
      obtain ⟨rfl, rests⟩ := ih later
      exact ⟨rfl, rests⟩

/-- The first character of a display is the quote in use, so both strings are displayed alike. -/
theorem displayChars_append_inj {text other rest rest' : List Char}
    (same : displayChars text ++ rest = displayChars other ++ rest') :
    text = other ∧ rest = rest' := by
  simp only [displayChars, List.cons_append, List.append_assoc, List.nil_append,
    List.cons.injEq] at same
  obtain ⟨quotes, bodies⟩ := same
  rw [← quotes] at bodies
  exact flatMap_displayChar_append_inj (displayQuote_eq text) bodies

end PathQuery.Text
