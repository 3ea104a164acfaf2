import Mathlib.Data.List.TakeDrop
import PathQuery.Number.Numeral
import PathQuery.Proofs.Number.Rounding

/-!
# Numerals read back

A numeral that is put together from digits, a fraction and an exponent is read
as the decimal that it denotes (`Numeral.unsigned?_of_parts`).  A layout writes
such a numeral for a decimal, and it denotes that decimal (`Layout.exists_parts`),
so the text of a floating-point number is read as that number, and a whole
number of no more digits than are read is read as itself (`Numeral.read?_chars`).
-/

set_option autoImplicit false

namespace PathQuery

namespace Numeral

/-- A numeral without its sign: whole digits, the digits behind the point, and the exponent,
where `true` stands for a minus sign. -/
structure Parts where
  whole : List Char
  fraction : List Char
  exponent : Option (Bool × List Char)

def fractionChars : List Char → List Char
  | [] => []
  | digits => '.' :: digits

theorem fractionChars_of_ne_nil {digits : List Char} (some' : digits ≠ []) :
    fractionChars digits = '.' :: digits := by
  obtain ⟨digit, more, rfl⟩ := List.exists_cons_of_ne_nil some'
  rfl

def exponentChars : Option (Bool × List Char) → List Char
  | none => []
  | some (negative, digits) => 'e' :: (if negative then '-' else '+') :: digits

def signed (negative : Bool) (size : Nat) : Int := if negative then -size else size

namespace Parts

def chars (p : Parts) : List Char :=
  p.whole ++ (fractionChars p.fraction ++ exponentChars p.exponent)

def digits (p : Parts) : Nat := Nat.ofDigitChars 10 (p.whole ++ p.fraction) 0

def power (p : Parts) : Int :=
  match p.exponent with
  | none => -p.fraction.length
  | some (negative, digits) => signed negative (Nat.ofDigitChars 10 digits 0) - p.fraction.length

theorem power_plain (whole fraction : List Char) :
    power ⟨whole, fraction, none⟩ = -fraction.length := rfl

theorem power_sized (whole fraction digits : List Char) (negative : Bool) :
    power ⟨whole, fraction, some (negative, digits)⟩ =
      signed negative (Nat.ofDigitChars 10 digits 0) - fraction.length := rfl

theorem chars_plain (whole fraction : List Char) :
    chars ⟨whole, fraction, none⟩ = whole ++ fractionChars fraction := by
  rw [chars, exponentChars, List.append_nil]

structure Valid (p : Parts) : Prop where
  whole_ne_nil : p.whole ≠ []
  whole_digits : ∀ c ∈ p.whole, c.isDigit = true
  whole_zero : ∀ more, p.whole = '0' :: more → more = []
  fraction_digits : ∀ c ∈ p.fraction, c.isDigit = true
  exponent_digits : ∀ negative digits, p.exponent = some (negative, digits) →
    digits ≠ [] ∧ ∀ c ∈ digits, c.isDigit = true

end Parts

theorem takeDigits_append {digits rest : List Char} (inside : ∀ c ∈ digits, c.isDigit = true)
    (outside : ∀ c, rest.head? = some c → c.isDigit = false) :
    takeDigits (digits ++ rest) = (digits, rest) := by
  rw [takeDigits, List.span_eq_takeWhile_dropWhile, List.takeWhile_append_of_pos inside,
    List.dropWhile_append_of_pos inside]
  cases rest with
  | nil => simp
  | cons c more => simp [outside c rfl]

theorem whole?_append {digits rest : List Char} (some' : digits ≠ [])
    (inside : ∀ c ∈ digits, c.isDigit = true) (zero : ∀ more, digits = '0' :: more → more = [])
    (outside : ∀ c, rest.head? = some c → c.isDigit = false) :
    whole? (digits ++ rest) = some (digits, rest) := by
  rw [whole?, takeDigits_append inside outside]
  split
  · rename_i none
    exact absurd (Prod.mk.inj none).1 some'
  · rename_i next more _ shape
    exact absurd (zero _ (Prod.mk.inj shape).1) (by simp)
  · rfl

theorem fraction?_append {digits rest : List Char} (inside : ∀ c ∈ digits, c.isDigit = true)
    (outside : ∀ c, rest.head? = some c → c.isDigit = false ∧ c ≠ '.') :
    fraction? (fractionChars digits ++ rest) = some (digits, rest) := by
  cases digits with
  | nil =>
    rw [fractionChars, List.nil_append, fraction?]
    intro more shape
    exact (outside '.' (by rw [shape]; rfl)).2 rfl
  | cons digit more =>
    have taken := takeDigits_append inside fun c first => (outside c first).1
    rw [fractionChars, List.cons_append, fraction?, taken]
    simp

theorem exponent?_chars {exponent : Option (Bool × List Char)}
    (valid : ∀ negative digits, exponent = some (negative, digits) →
      digits ≠ [] ∧ ∀ c ∈ digits, c.isDigit = true) :
    exponent? (exponentChars exponent) = some (exponent.map fun sized =>
      signed sized.1 (Nat.ofDigitChars 10 sized.2 0)) := by
  cases exponent with
  | none => rfl
  | some sized =>
    obtain ⟨negative, digits⟩ := sized
    obtain ⟨some', inside⟩ := valid negative digits rfl
    have read : (digits.isEmpty || !digits.all Char.isDigit) = false := by
      rw [Bool.or_eq_false_iff, List.isEmpty_eq_false_iff, Bool.not_eq_false', List.all_eq_true]
      exact ⟨some', inside⟩
    cases negative <;> simp [exponentChars, exponent?, read, signed]

theorem head_exponentChars {exponent : Option (Bool × List Char)} {c : Char}
    (first : (exponentChars exponent).head? = some c) : c = 'e' := by
  cases exponent with
  | none => cases first
  | some sized =>
    cases first
    rfl

theorem head_fractionChars {digits : List Char} {exponent : Option (Bool × List Char)} {c : Char}
    (first : (fractionChars digits ++ exponentChars exponent).head? = some c) :
    c = '.' ∨ c = 'e' := by
  cases digits with
  | nil => exact .inr (head_exponentChars first)
  | cons digit more =>
    cases first
    exact .inl rfl

theorem Parts.Valid.read {p : Parts} (valid : p.Valid) :
    whole? p.chars = some (p.whole, fractionChars p.fraction ++ exponentChars p.exponent) ∧
      fraction? (fractionChars p.fraction ++ exponentChars p.exponent) =
        some (p.fraction, exponentChars p.exponent) ∧
      exponent? (exponentChars p.exponent) = some (p.exponent.map fun sized =>
        signed sized.1 (Nat.ofDigitChars 10 sized.2 0)) := by
  refine ⟨?_, ?_, exponent?_chars valid.exponent_digits⟩
  · exact whole?_append valid.whole_ne_nil valid.whole_digits valid.whole_zero fun c begins => by
      rcases head_fractionChars begins with rfl | rfl <;> rfl
  · exact fraction?_append valid.fraction_digits fun c begins => by
      rw [head_exponentChars begins]
      exact ⟨rfl, by decide⟩

theorem unsigned?_of_parts {p : Parts} (valid : p.Valid)
    (float : p.fraction ≠ [] ∨ p.exponent.isSome = true) (negative : Bool) :
    unsigned? negative p.chars = some (.float (.ofDecimal negative p.digits p.power)) := by
  obtain ⟨first, second, third⟩ := valid.read
  obtain ⟨whole, fraction, exponent⟩ := p
  rw [unsigned?, first]
  change (fraction? _ >>= _) = _
  rw [second]
  change (exponent? _ >>= _) = _
  rw [third]
  cases exponent with
  | none =>
    cases fraction with
    | nil => simp at float
    | cons digit more => simp [Parts.digits, Parts.power]
  | some sized => simp [Parts.digits, Parts.power]

theorem unsigned?_whole {digits : List Char} (some' : digits ≠ [])
    (inside : ∀ c ∈ digits, c.isDigit = true) (zero : ∀ more, digits = '0' :: more → more = [])
    (short : digits.length ≤ digitLimit) (negative : Bool) :
    unsigned? negative digits = some (.int (signed negative (Nat.ofDigitChars 10 digits 0))) := by
  have first : whole? digits = some (digits, []) := by
    have whole := @whole?_append digits [] some' inside zero (by simp)
    rwa [List.append_nil] at whole
  rw [unsigned?, first]
  change (if digits.length ≤ digitLimit then _ else _) = _
  rw [if_pos short]
  rfl

end Numeral

/-! ## The parts that a layout writes -/

theorem head_toDigits {size : Nat} (some' : size ≠ 0) :
    (Nat.toDigits 10 size).head? ≠ some '0' := by
  induction size using Nat.strong_induction_on with
  | _ size ih =>
    by_cases small : size < 10
    · rw [Nat.toDigits_of_lt_base small, List.head?_cons, ne_eq, Option.some.injEq,
        Nat.digitChar_eq_zero]
      exact some'
    · have front := ih (size / 10) (by omega) (by omega)
      rw [Nat.toDigits_of_base_le (by decide) (Nat.not_lt.mp small), List.head?_append]
      cases first : (Nat.toDigits 10 (size / 10)).head? with
      | none => exact absurd (List.head?_eq_none_iff.mp first) Nat.toDigits_ne_nil
      | some digit => rwa [← first, first, Option.some_or, ← first]

theorem toDigits_zero_cons {size : Nat} {more : List Char}
    (leading : Nat.toDigits 10 size = '0' :: more) : more = [] := by
  by_cases none : size = 0
  · rw [none, Nat.toDigits_zero] at leading
    exact (List.cons.inj leading).2.symm
  · exact absurd (by rw [leading]; rfl) (head_toDigits none)

theorem isDigit_of_mem_replicate {count : Nat} {c : Char} (listed : c ∈ List.replicate count '0') :
    c.isDigit = true := by
  rw [List.eq_of_mem_replicate listed]
  rfl

namespace Decimal

theorem isDigit_of_mem_chars {d : Decimal} {c : Char} (listed : c ∈ d.chars) : c.isDigit = true :=
  Nat.isDigit_of_mem_toDigits (by decide) (by decide) listed

theorem ofDigitChars_chars (d : Decimal) : Nat.ofDigitChars 10 d.chars 0 = d.digits :=
  Nat.ofDigitChars_ten_toDigits

theorem chars_ne_nil (d : Decimal) : d.chars ≠ [] := Nat.toDigits_ne_nil

end Decimal

namespace Layout

open Numeral

/-- Whether a layout writes a whole number bare, or with a zero behind the point. -/
def PlainTail (layout : Layout) : Prop := layout.wholeTail = [] ∨ layout.wholeTail = ['.', '0']

variable {layout : Layout}

theorem positional_of_nonpos (d : Decimal) (low : d.point ≤ 0) :
    ∃ p : Parts, p.Valid ∧ layout.positional d.chars d.point = p.chars ∧ p.fraction ≠ [] ∧
      p.exponent = none ∧ decimalValue p.digits p.power = decimalValue d.digits d.exponent ∧
        d.chars <:+ p.whole ++ p.fraction := by
  refine ⟨⟨['0'], List.replicate (-d.point).toNat '0' ++ d.chars, none⟩, ?_, ?_, ?_, rfl, ?_,
    ['0'] ++ List.replicate (-d.point).toNat '0', List.append_assoc ..⟩
  · refine ⟨by simp, by simp, by simp, ?_, by simp⟩
    intro c listed
    exact (List.mem_append.mp listed).elim isDigit_of_mem_replicate Decimal.isDigit_of_mem_chars
  · rw [positional, if_pos low, Parts.chars_plain, fractionChars_of_ne_nil]
    · rfl
    · exact List.append_ne_nil_of_right_ne_nil _ d.chars_ne_nil
  · exact List.append_ne_nil_of_right_ne_nil _ d.chars_ne_nil
  · have point : d.point = d.chars.length + d.exponent := rfl
    have power : -((List.replicate (-d.point).toNat '0' ++ d.chars).length : Int) =
        d.exponent := by
      rw [List.length_append, List.length_replicate]
      omega
    have zeros : Nat.ofDigitChars 10 (List.replicate (-d.point).toNat '0') 0 = 0 := by
      rw [Nat.ofDigitChars_replicate_zero, Nat.mul_zero]
    rw [Parts.power_plain, power, Parts.digits, Nat.ofDigitChars_append, Nat.ofDigitChars_append]
    have digits : Nat.ofDigitChars 10 d.chars
        (Nat.ofDigitChars 10 (List.replicate (-d.point).toNat '0') 0) = d.digits := by
      rw [zeros, d.ofDigitChars_chars]
    exact congrArg (decimalValue · d.exponent) digits

theorem positional_of_lt (d : Decimal) (low : 0 < d.point)
    (high : d.point < d.chars.length) :
    ∃ p : Parts, p.Valid ∧ layout.positional d.chars d.point = p.chars ∧ p.fraction ≠ [] ∧
      p.exponent = none ∧ decimalValue p.digits p.power = decimalValue d.digits d.exponent ∧
        p.whole ++ p.fraction = d.chars := by
  have shown : d.chars.drop d.point.toNat ≠ [] := by
    rw [ne_eq, List.drop_eq_nil_iff]
    omega
  refine ⟨⟨d.chars.take d.point.toNat, d.chars.drop d.point.toNat, none⟩, ?_, ?_, shown, rfl, ?_,
    List.take_append_drop ..⟩
  · refine ⟨?_, ?_, ?_, ?_, by simp⟩
    · rw [ne_eq, List.take_eq_nil_iff, not_or]
      exact ⟨by omega, d.chars_ne_nil⟩
    · exact fun c listed => Decimal.isDigit_of_mem_chars (List.mem_of_mem_take listed)
    · intro more leading
      have whole : d.chars = '0' :: (more ++ d.chars.drop d.point.toNat) := by
        rw [← List.cons_append, ← leading, List.take_append_drop]
      exact (List.append_eq_nil_iff.mp (toDigits_zero_cons whole)).1
    · exact fun c listed => Decimal.isDigit_of_mem_chars (List.mem_of_mem_drop listed)
  · rw [positional, if_neg (Int.not_le.mpr low), if_pos high, Parts.chars_plain,
      fractionChars_of_ne_nil shown]
  · have point : d.point = d.chars.length + d.exponent := rfl
    have power : -((d.chars.drop d.point.toNat).length : Int) = d.exponent := by
      rw [List.length_drop]
      omega
    rw [Parts.power_plain, power, Parts.digits, List.take_append_drop, d.ofDigitChars_chars]

theorem positional_of_le (plain : layout.PlainTail) (d : Decimal)
    (zero : d.digits = 0 → d.exponent = 0) (low : 0 < d.point) (high : d.chars.length ≤ d.point) :
    ∃ p : Parts, p.Valid ∧ layout.positional d.chars d.point = p.chars ∧
      (layout.wholeTail = [] ↔ p.fraction = []) ∧
      p.exponent = none ∧ decimalValue p.digits p.power = decimalValue d.digits d.exponent := by
  have point : d.point = d.chars.length + d.exponent := rfl
  have valid : ∀ fraction : List Char, (∀ c ∈ fraction, c.isDigit = true) → Parts.Valid
      ⟨d.chars ++ List.replicate (d.point.toNat - d.chars.length) '0', fraction, none⟩ := by
    intro fraction inside
    refine ⟨List.append_ne_nil_of_left_ne_nil d.chars_ne_nil _, ?_, ?_, inside, by simp⟩
    · intro c listed
      exact (List.mem_append.mp listed).elim Decimal.isDigit_of_mem_chars isDigit_of_mem_replicate
    · intro more leading
      obtain ⟨digit, rest, shape⟩ := List.exists_cons_of_ne_nil d.chars_ne_nil
      dsimp only at leading
      rw [shape, List.cons_append] at leading
      obtain ⟨rfl, rfl⟩ := List.cons.inj leading
      have none : d.digits = 0 := by
        by_contra some'
        exact head_toDigits some' (by rw [← Decimal.chars, shape]; rfl)
      obtain rfl := toDigits_zero_cons shape
      have size : d.chars.length = 1 := by rw [shape]; rfl
      have flat := zero none
      have count : d.point.toNat - d.chars.length = 0 := by omega
      rw [← shape, count]
      rfl
  have sized : Nat.ofDigitChars 10
      (d.chars ++ List.replicate (d.point.toNat - d.chars.length) '0') 0 =
        d.digits * 10 ^ (d.point.toNat - d.chars.length) := by
    rw [Nat.ofDigitChars_append, Nat.ofDigitChars_replicate_zero, d.ofDigitChars_chars,
      Nat.mul_comm]
  have value : decimalValue (d.digits * 10 ^ (d.point.toNat - d.chars.length)) 0 =
      decimalValue d.digits d.exponent := by
    rw [decimalValue_mul_ten_pow]
    congr 1
    omega
  rcases plain with bare | pointed
  · refine ⟨⟨_, [], none⟩, valid [] (by simp), ?_, iff_of_true bare rfl, rfl, ?_⟩
    · rw [positional, if_neg (Int.not_le.mpr low), if_neg (Int.not_lt.mpr high), bare,
        Parts.chars_plain]
      rfl
    · rw [Parts.digits, Parts.power_plain, List.append_nil, sized]
      exact value
  · refine ⟨⟨_, ['0'], none⟩, valid ['0'] (by simp), ?_, by simp [pointed], rfl, ?_⟩
    · rw [positional, if_neg (Int.not_le.mpr low), if_neg (Int.not_lt.mpr high), pointed,
        Parts.chars_plain]
      rfl
    · have tail : ∀ size, Nat.ofDigitChars 10 ['0'] size = size * 10 ^ 1 := fun size => by
        rw [Nat.mul_comm]
        exact @Nat.ofDigitChars_replicate_zero 10 size 1
      rw [Parts.digits, Parts.power_plain, Nat.ofDigitChars_append, sized, tail,
        decimalValue_mul_ten_pow]
      exact value

theorem exists_parts_of_scientific (d : Decimal) :
    ∃ p : Parts, p.Valid ∧ layout.scientific d.chars (d.point - 1) = p.chars ∧
      p.exponent.isSome = true ∧
      decimalValue p.digits p.power = decimalValue d.digits d.exponent ∧
        p.whole ++ p.fraction = d.chars := by
  obtain ⟨first, rest, shape⟩ := List.exists_cons_of_ne_nil d.chars_ne_nil
  have inside : ∀ c ∈ first :: rest, c.isDigit = true := fun c listed =>
    Decimal.isDigit_of_mem_chars (shape ▸ listed)
  have power : ∃ width, width ≠ [] ∧ (∀ c ∈ width, c.isDigit = true) ∧
      width = List.replicate (layout.exponentWidth -
        (Nat.toDigits 10 (d.point - 1).natAbs).length) '0' ++
          Nat.toDigits 10 (d.point - 1).natAbs ∧
      signed (decide (d.point - 1 < 0)) (Nat.ofDigitChars 10 width 0) = d.point - 1 := by
    refine ⟨_, List.append_ne_nil_of_right_ne_nil _ Nat.toDigits_ne_nil, ?_, rfl, ?_⟩
    · intro c listed
      exact (List.mem_append.mp listed).elim isDigit_of_mem_replicate
        (Nat.isDigit_of_mem_toDigits (by decide) (by decide))
    · rw [Nat.ofDigitChars_append, Nat.ofDigitChars_replicate_zero, Nat.mul_zero,
        Nat.ofDigitChars_ten_toDigits, signed]
      split
      · rename_i negative
        have := of_decide_eq_true negative
        omega
      · rename_i nonnegative
        have := of_decide_eq_false (Bool.eq_false_of_not_eq_true nonnegative)
        omega
  obtain ⟨width, some', digits, written, sized⟩ := power
  refine ⟨⟨[first], rest, some (decide (d.point - 1 < 0), width)⟩, ?_, ?_, rfl, ?_, shape.symm⟩
  · refine ⟨by simp, ?_, ?_, ?_, ?_⟩
    · intro c listed
      exact inside c (List.mem_singleton.mp listed ▸ List.mem_cons_self ..)
    · intro more leading
      exact (List.cons.inj leading).2.symm
    · exact fun c listed => inside c (List.mem_cons_of_mem _ listed)
    · rintro negative found ⟨⟩
      exact ⟨some', digits⟩
  · unfold scientific
    rw [shape]
    cases rest <;> simp [Parts.chars, fractionChars, exponentChars, written]
  · have point : d.point = d.chars.length + d.exponent := rfl
    have length : d.chars.length = rest.length + 1 := by rw [shape, List.length_cons]
    have power : d.point - 1 - rest.length = d.exponent := by omega
    rw [Parts.power_sized, sized, power, Parts.digits, List.singleton_append, ← shape,
      d.ofDigitChars_chars]

/-- The parts are what the layout writes for the decimal, and denote it. -/
structure Writes (layout : Layout) (d : Decimal) (p : Parts) : Prop where
  valid : p.Valid
  chars : layout.decimal d = p.chars
  value : decimalValue p.digits p.power = decimalValue d.digits d.exponent
  positional : p.exponent = none ↔ layout.leastPoint ≤ d.point ∧ d.point ≤ layout.greatestPoint
  tail : layout.wholeTail ≠ [] → p.fraction ≠ [] ∨ p.exponent.isSome = true
  suffix : layout.wholeTail = [] → p.fraction ≠ [] → d.chars <:+ p.whole ++ p.fraction

theorem exists_parts (plain : layout.PlainTail) (d : Decimal)
    (zero : d.digits = 0 → d.exponent = 0) : ∃ p, layout.Writes d p := by
  by_cases inside : layout.leastPoint ≤ d.point ∧ d.point ≤ layout.greatestPoint
  · have laid : layout.decimal d = layout.positional d.chars d.point := if_pos inside
    by_cases low : d.point ≤ 0
    · obtain ⟨p, valid, written, shown, bare, value, ending⟩ := positional_of_nonpos d low
      exact ⟨p, valid, laid.trans written, value, iff_of_true bare inside, fun _ => .inl shown,
        fun _ _ => ending⟩
    · have positive := Int.not_le.mp low
      by_cases high : d.point < d.chars.length
      · obtain ⟨p, valid, written, shown, bare, value, all⟩ := positional_of_lt d positive high
        exact ⟨p, valid, laid.trans written, value, iff_of_true bare inside, fun _ => .inl shown,
          fun _ _ => all ▸ List.suffix_rfl⟩
      · obtain ⟨p, valid, written, shown, bare, value⟩ :=
          positional_of_le plain d zero positive (Int.not_lt.mp high)
        exact ⟨p, valid, laid.trans written, value, iff_of_true bare inside,
          fun tail => .inl (mt shown.mpr tail), fun none some' => absurd (shown.mp none) some'⟩
  · have laid : layout.decimal d = layout.scientific d.chars (d.point - 1) := if_neg inside
    obtain ⟨p, valid, written, shown, value, all⟩ := exists_parts_of_scientific d
    refine ⟨p, valid, laid.trans written, value, iff_of_false ?_ inside, fun _ => .inr shown,
      fun _ _ => all ▸ List.suffix_rfl⟩
    exact Option.isSome_iff_ne_none.mp shown

theorem document_plainTail : document.PlainTail := .inr rfl

end Layout

/-! ## Numbers read back -/

namespace Numeral

open Layout

theorem read?_withSign {text : List Char} (unsigned : text.head? ≠ some '-') (negative : Bool) :
    read? (withSign negative text) = unsigned? negative text := by
  cases negative with
  | true => rfl
  | false =>
    rw [withSign, if_neg (by decide), read?]
    rintro rest rfl
    exact unsigned rfl

theorem head_ne_minus {digits : List Char} (some' : digits ≠ [])
    (inside : ∀ c ∈ digits, c.isDigit = true) (rest : List Char) :
    (digits ++ rest).head? ≠ some '-' := by
  obtain ⟨digit, more, rfl⟩ := List.exists_cons_of_ne_nil some'
  rintro ⟨⟩
  exact absurd (inside '-' (List.mem_cons_self ..)) (by decide)

theorem head_toDigits_ne_minus (size : Nat) : (Nat.toDigits 10 size).head? ≠ some '-' := by
  have inside : ∀ c ∈ Nat.toDigits 10 size, c.isDigit = true := fun c =>
    Nat.isDigit_of_mem_toDigits (by decide) (by decide)
  have unsigned := head_ne_minus Nat.toDigits_ne_nil inside []
  rwa [List.append_nil] at unsigned

theorem read?_intChars {value : Int}
    (short : (Nat.toDigits 10 value.natAbs).length ≤ digitLimit) :
    read? (Number.intChars value) = some (.int value) := by
  have inside : ∀ c ∈ Nat.toDigits 10 value.natAbs, c.isDigit = true := fun c =>
    Nat.isDigit_of_mem_toDigits (by decide) (by decide)
  rw [Number.intChars, read?_withSign (head_toDigits_ne_minus _),
    unsigned?_whole Nat.toDigits_ne_nil inside (fun _ => toDigits_zero_cons) short,
    Nat.ofDigitChars_ten_toDigits, signed]
  congr 2
  split
  · rename_i negative
    have := of_decide_eq_true negative
    omega
  · rename_i nonnegative
    have := of_decide_eq_false (Bool.eq_false_of_not_eq_true nonnegative)
    omega

/-- What is written for a binary64 number is read as that number. -/
theorem read?_finite (negative : Bool) (m : Magnitude) :
    read? (document.chars (.finite negative m)) = some (.float (.finite negative m)) := by
  obtain ⟨p, writes⟩ := exists_parts document_plainTail m.shortest m.exponent_shortest
  have sign : (negative && (document.signedZero || m.significand != 0)) = negative := by
    rw [show document.signedZero = true from rfl, Bool.true_or, Bool.and_true]
  have unsigned : p.chars.head? ≠ some '-' :=
    head_ne_minus writes.valid.whole_ne_nil writes.valid.whole_digits _
  rw [chars, sign, writes.chars, read?_withSign unsigned,
    unsigned?_of_parts writes.valid (writes.tail (by decide)), Double.ofDecimal,
    Magnitude.ofDecimal?_congr writes.value, m.ofDecimal?_shortest]

def isPart (c : Char) : Bool := c.isAlphanum || c = '.' || c = '+' || c = '-'

theorem isPart_of_isDigit {c : Char} (digit : c.isDigit = true) : isPart c = true := by
  simp [isPart, Char.isAlphanum, digit]

theorem Parts.Valid.isPart_of_mem {p : Parts} (valid : p.Valid) {c : Char}
    (listed : c ∈ p.chars) : isPart c = true := by
  rw [Parts.chars, List.mem_append, List.mem_append] at listed
  rcases listed with whole | fraction | exponent
  · exact isPart_of_isDigit (valid.whole_digits c whole)
  · cases shape : p.fraction with
    | nil => rw [shape] at fraction; cases fraction
    | cons digit more =>
      rw [fractionChars_of_ne_nil (by rw [shape]; simp), List.mem_cons] at fraction
      rcases fraction with rfl | digit
      · rfl
      · exact isPart_of_isDigit (valid.fraction_digits c digit)
  · cases shape : p.exponent with
    | none => rw [shape] at exponent; cases exponent
    | some sized =>
      obtain ⟨negative, digits⟩ := sized
      rw [shape, exponentChars, List.mem_cons, List.mem_cons] at exponent
      rcases exponent with rfl | rfl | digit
      · rfl
      · cases negative <;> rfl
      · exact isPart_of_isDigit ((valid.exponent_digits negative digits shape).2 c digit)

theorem isPart_of_mem_withSign {negative : Bool} {text : List Char}
    (parts : ∀ c ∈ text, isPart c = true) {c : Char} (listed : c ∈ withSign negative text) :
    isPart c = true := by
  cases negative with
  | false => exact parts c listed
  | true =>
    rcases List.mem_cons.mp listed with rfl | inside
    · rfl
    · exact parts c inside

theorem isPart_of_mem_chars {value : Number} {c : Char}
    (listed : c ∈ value.chars document) : isPart c = true := by
  cases value with
  | int value =>
    refine isPart_of_mem_withSign ?_ listed
    exact fun c digit =>
      isPart_of_isDigit (Nat.isDigit_of_mem_toDigits (by decide) (by decide) digit)
  | float value =>
    cases value with
    | nan =>
      have letters : "NaN".toList.all isPart = true := by decide
      exact List.all_eq_true.mp letters c listed
    | infinite negative =>
      have letters : "Infinity".toList.all isPart = true := by decide
      exact isPart_of_mem_withSign (List.all_eq_true.mp letters) listed
    | finite negative m =>
      obtain ⟨p, writes⟩ := exists_parts document_plainTail m.shortest m.exponent_shortest
      refine isPart_of_mem_withSign ?_ listed
      rw [writes.chars]
      exact fun c => writes.valid.isPart_of_mem

theorem withSign_inj {a b : Bool} {text other : List Char} (plain : text.head? ≠ some '-')
    (plain' : other.head? ≠ some '-') (same : withSign a text = withSign b other) :
    a = b ∧ text = other := by
  cases a <;> cases b
  · exact ⟨rfl, same⟩
  · exact (plain (by rw [show text = '-' :: other from same]; rfl)).elim
  · exact (plain' (by rw [show other = '-' :: text from same.symm]; rfl)).elim
  · exact ⟨rfl, (List.cons.inj same).2⟩

theorem intChars_inj {a b : Int} (same : Number.intChars a = Number.intChars b) : a = b := by
  obtain ⟨signs, digits⟩ :=
    withSign_inj (head_toDigits_ne_minus _) (head_toDigits_ne_minus _) same
  have sizes : a.natAbs = b.natAbs := by
    rw [← @Nat.ofDigitChars_ten_toDigits a.natAbs, digits, Nat.ofDigitChars_ten_toDigits]
  rw [decide_eq_decide] at signs
  omega

theorem digit_or_minus_of_mem_intChars {value : Int} {c : Char}
    (listed : c ∈ Number.intChars value) : c.isDigit = true ∨ c = '-' := by
  have digits : ∀ c ∈ Nat.toDigits 10 value.natAbs, c.isDigit = true := fun c =>
    Nat.isDigit_of_mem_toDigits (by decide) (by decide)
  rw [Number.intChars, withSign] at listed
  split at listed
  · exact (List.mem_cons.mp listed).symm.imp_left (digits c)
  · exact .inl (digits c listed)

theorem exists_mem_chars_float (value : Double) :
    ∃ c ∈ document.chars value, ¬ (c.isDigit = true ∨ c = '-') := by
  cases value with
  | nan => exact ⟨'N', by decide, by decide⟩
  | infinite negative => exact ⟨'I', by cases negative <;> decide, by decide⟩
  | finite negative m =>
    obtain ⟨p, writes⟩ := exists_parts document_plainTail m.shortest m.exponent_shortest
    obtain ⟨c, listed, shown⟩ : ∃ c ∈ p.chars, ¬ (c.isDigit = true ∨ c = '-') := by
      rcases writes.tail (by decide) with fraction | exponent
      · refine ⟨'.', ?_, by decide⟩
        rw [Parts.chars, fractionChars_of_ne_nil fraction]
        simp
      · obtain ⟨sized, shape⟩ := Option.isSome_iff_exists.mp exponent
        refine ⟨'e', ?_, by decide⟩
        rw [Parts.chars, shape, exponentChars]
        simp
    refine ⟨c, ?_, shown⟩
    rw [Layout.chars, writes.chars, withSign]
    split
    · exact List.mem_cons_of_mem _ listed
    · exact listed

theorem chars_ne_nil (value : Number) : value.chars document ≠ [] := by
  cases value with
  | int value =>
    rw [Number.chars, Number.intChars, withSign]
    split
    · exact List.cons_ne_nil _ _
    · exact Nat.toDigits_ne_nil
  | float value =>
    obtain ⟨c, listed, -⟩ := exists_mem_chars_float value
    exact List.ne_nil_of_mem listed

end Numeral

end PathQuery
