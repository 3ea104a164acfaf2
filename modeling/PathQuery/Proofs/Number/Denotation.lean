import PathQuery.Proofs.Number.Numeral
import PathQuery.Proofs.Number.Shortest

/-!
# Texts denote shortest decimals

A numeral denotes a rational number, which is not rounded (`Numeral.value?`).  The
text that a comparison sees of a binary64 number denotes the shortest decimal of that
number, so texts tell different numbers apart, and the border between positional
notation and exponents lies where the layout says, at 10^-6 and at 10^21.  In terms
of the numbers themselves the lower border is the number nearest to 10^-6, which is
a little less than that (`comparison_text_exact`).
-/

set_option autoImplicit false

namespace PathQuery

namespace Numeral

def unsignedValue? (text : List Char) : Option ℚ := do
  let (whole, rest) ← whole? text
  let (fraction, rest') ← fraction? rest
  let exponent ← exponent? rest'
  some (decimalValue (Nat.ofDigitChars 10 (whole ++ fraction) 0)
    (exponent.getD 0 - fraction.length))

def value? : List Char → Option ℚ
  | '-' :: rest => (unsignedValue? rest).map fun size => -size
  | text => unsignedValue? text

def signedValue (negative : Bool) (size : ℚ) : ℚ := if negative then -size else size

def Parts.mantissa (p : Parts) : ℚ := decimalValue p.digits (-p.fraction.length)

variable {p : Parts}

theorem unsignedValue?_of_parts (valid : p.Valid) :
    unsignedValue? p.chars = some (decimalValue p.digits p.power) := by
  obtain ⟨first, second, third⟩ := valid.read
  obtain ⟨whole, fraction, exponent⟩ := p
  rw [unsignedValue?, first]
  change (fraction? _ >>= _) = _
  rw [second]
  change (exponent? _ >>= _) = _
  rw [third]
  cases exponent with
  | none => simp [Parts.digits, Parts.power]
  | some sized => rfl

theorem value?_withSign (valid : p.Valid) (negative : Bool) :
    value? (Layout.withSign negative p.chars) =
      some (signedValue negative (decimalValue p.digits p.power)) := by
  have read := unsignedValue?_of_parts valid
  cases negative with
  | true =>
    rw [Layout.withSign, if_pos rfl, value?, read]
    rfl
  | false =>
    have unsigned : p.chars.head? ≠ some '-' :=
      head_ne_minus valid.whole_ne_nil valid.whole_digits _
    rw [Layout.withSign, if_neg (by decide), value?, read]
    · rfl
    · intro rest shape
      exact unsigned (by rw [shape]; rfl)

theorem Parts.mantissa_of_fraction_eq_nil (bare : p.fraction = []) :
    p.mantissa = p.digits := by
  simp [Parts.mantissa, decimalValue, bare]

theorem Parts.mantissa_ne_of_digits_mod_ten (some' : p.fraction ≠ [])
    (last : p.digits % 10 ≠ 0) (count : Nat) : p.mantissa ≠ count := by
  intro whole
  have positive : 0 < p.fraction.length := List.length_pos_iff.mpr some'
  have scaled := decimalValue_mul_pow p.digits (-p.fraction.length)
  have power : (-(-p.fraction.length : Int)).toNat = p.fraction.length := by omega
  have flat : (-p.fraction.length : Int).toNat = 0 := by omega
  rw [← Parts.mantissa, whole, power, flat, Nat.pow_zero, Nat.mul_one] at scaled
  have product : p.digits = count * 10 ^ p.fraction.length := by exact_mod_cast scaled.symm
  rw [product] at last
  exact last (Nat.mod_eq_zero_of_dvd (Dvd.dvd.mul_left (dvd_pow_self 10 positive.ne') count))

theorem Parts.getLast?_fraction_ne_zero (last : p.digits % 10 ≠ 0) :
    p.fraction.getLast? ≠ some '0' := by
  intro zero
  obtain ⟨front, shape⟩ := List.getLast?_eq_some_iff.mp zero
  refine last ?_
  rw [Parts.digits, shape, ← List.append_assoc, Nat.ofDigitChars_append, Nat.ofDigitChars_cons,
    Nat.ofDigitChars_nil, Nat.sub_self, Nat.add_zero, Nat.mul_mod_right]

theorem ofDigitChars_mod_ten_of_suffix {digits text : List Char} (ending : digits <:+ text)
    (some' : digits ≠ []) :
    Nat.ofDigitChars 10 text 0 % 10 = Nat.ofDigitChars 10 digits 0 % 10 := by
  obtain ⟨front, rfl⟩ := ending
  have positive : 0 < digits.length := List.length_pos_iff.mpr some'
  have tens : 10 ∣ 10 ^ digits.length * Nat.ofDigitChars 10 front 0 :=
    Dvd.dvd.mul_right (dvd_pow_self 10 positive.ne') _
  rw [Nat.ofDigitChars_append, Nat.ofDigitChars_eq_ofDigitChars_zero]
  omega

end Numeral

namespace Decimal

variable {d : Decimal}

theorem pow_le_decimalValue (some' : d.digits ≠ 0) :
    (10 : ℚ) ^ (d.point - 1) ≤ decimalValue d.digits d.exponent := by
  obtain ⟨width, length⟩ := Magnitude.exists_length_toDigits d.digits
  have least : 10 ^ width ≤ d.digits := Magnitude.pow_le_of_length_toDigits some' (by omega)
  have place : d.point - 1 = d.exponent + width := by
    rw [point, chars, length]
    omega
  have power := decimalValue_mul_ten_pow 1 d.exponent width
  rw [Nat.one_mul, ← place, decimalValue, decimalValue, Nat.cast_one, one_mul] at power
  rw [← power]
  exact decimalValue_mono d.exponent least

theorem decimalValue_lt_pow (d : Decimal) :
    decimalValue d.digits d.exponent < (10 : ℚ) ^ d.point := by
  have few : d.digits < 10 ^ d.chars.length :=
    (Nat.length_toDigits_le_iff (by decide) (List.length_pos_iff.mpr d.chars_ne_nil)).mp le_rfl
  have power := decimalValue_mul_ten_pow 1 d.exponent d.chars.length
  have place : d.exponent + d.chars.length = d.point := add_comm ..
  rw [Nat.one_mul, place, decimalValue, decimalValue, Nat.cast_one, one_mul] at power
  rw [← power, decimalValue]
  exact mul_lt_mul_of_pos_right (Nat.cast_lt.mpr few) (zpow_pos (by norm_num) _)

theorem le_point_iff (some' : d.digits ≠ 0) (place : ℤ) :
    place ≤ d.point ↔ (10 : ℚ) ^ (place - 1) ≤ decimalValue d.digits d.exponent := by
  have base : (1 : ℚ) ≤ 10 := by norm_num
  constructor
  · intro inside
    exact (zpow_le_zpow_right₀ base (by omega)).trans (pow_le_decimalValue some')
  · intro large
    by_contra outside
    have small := (decimalValue_lt_pow d).trans_le
      (zpow_le_zpow_right₀ base (show d.point ≤ place - 1 by omega))
    exact absurd large (not_le.mpr small)

end Decimal

namespace Magnitude

def millionth : Magnitude := ⟨4722366482869645, 1002, by decide, by decide, .inr (by decide)⟩

def sextillion : Magnitude := ⟨7629394531250000, 1091, by decide, by decide, .inr (by decide)⟩

theorem ofDecimal?_millionth : ofDecimal? 1 (-6) = some millionth := by decide +kernel

theorem value_millionth_lt : millionth.value < (10 : ℚ) ^ (-6 : ℤ) := by
  rw [value_eq, millionth]
  norm_num

theorem value_sextillion : sextillion.value = 10 ^ 21 := by
  rw [value_eq, sextillion]
  norm_num

theorem shortest_millionth : millionth.shortest = ⟨1, -6⟩ := by
  have rounded : millionth.rounding? 1067 = some _ :=
    @rounding?_of_high _ _ 9 (by decide +kernel) (by decide +kernel) (by decide +kernel)
  have size : (Nat.toDigits 10 millionth.exact).length = 1068 := by decide +kernel
  rw [shortest_of_rounding? size rounded, Decimal.trim, if_neg (by decide), if_pos (by decide),
    Decimal.trim, if_neg (by decide), if_neg (by decide)]
  rfl

theorem shortest_sextillion : sextillion.shortest = ⟨1, 21⟩ := by
  have rounded : sextillion.rounding? 1095 = some _ :=
    @rounding?_of_exact _ 1095 1 (by decide +kernel)
  have size : (Nat.toDigits 10 sextillion.exact).length = 1096 := by decide +kernel
  rw [shortest_of_rounding? size rounded, Decimal.trim, if_neg (by decide), if_neg (by decide)]
  rfl

variable {m n : Magnitude}

theorem millionth_le_iff : millionth.value ≤ m.value ↔ (10 : ℚ) ^ (-6 : ℤ) ≤ m.written := by
  rw [← written_le_iff, written, shortest_millionth, decimalValue, Nat.cast_one, one_mul]

theorem lt_sextillion_iff : m.value < 10 ^ 21 ↔ m.written < (10 : ℚ) ^ (21 : ℤ) := by
  rw [← value_sextillion, ← not_le, ← written_le_iff, not_le, written.eq_1 sextillion,
    shortest_sextillion, decimalValue, Nat.cast_one, one_mul]

theorem digits_shortest_ne_zero (some' : m ≠ zero) : m.shortest.digits ≠ 0 :=
  mt eq_zero_of_digits_shortest some'

theorem digits_shortest_mod_ten (some' : m ≠ zero) : m.shortest.digits % 10 ≠ 0 := by
  obtain ⟨digits, exponent, shape, -⟩ := m.exists_trim_of_shortest
  have trimmed := Decimal.digits_trim_mod_ten digits exponent
  rw [← shape] at trimmed
  exact trimmed.resolve_left (digits_shortest_ne_zero some')

theorem significand_eq_zero_iff : m.significand = 0 ↔ m = zero := by
  constructor
  · intro none
    have flat : m.shift = 0 := m.canonical.resolve_right (by rw [none]; decide)
    cases m
    cases none
    cases flat
    rfl
  · rintro rfl
    rfl

end Magnitude

/-! ## The text of a comparison -/

namespace Layout

open Numeral Magnitude

variable {a b negative : Bool} {m n : Magnitude}

theorem comparison_plainTail : comparison.PlainTail := .inl rfl

theorem chars_comparison_zero (negative : Bool) :
    comparison.chars (.finite negative .zero) = ['0'] := by
  rw [chars, shortest_zero]
  cases negative <;> rfl

theorem chars_comparison_of_ne_zero (some' : m ≠ .zero) :
    comparison.chars (.finite negative m) = withSign negative (comparison.decimal m.shortest) := by
  have shown : (m.significand != 0) = true := by
    rw [bne_iff_ne]
    exact mt significand_eq_zero_iff.mp some'
  rw [chars, shown, Bool.or_true, Bool.and_true]

theorem value?_chars_comparison (negative : Bool) (m : Magnitude) :
    value? (comparison.chars (.finite negative m)) = some (signedValue negative m.written) := by
  by_cases none : m = .zero
  · rw [none, chars_comparison_zero, written, shortest_zero]
    cases negative <;> decide +kernel
  · obtain ⟨p, writes⟩ := exists_parts comparison_plainTail m.shortest m.exponent_shortest
    rw [chars_comparison_of_ne_zero none, writes.chars, value?_withSign writes.valid, writes.value,
      written]

theorem signedValue_inj {f : Magnitude → ℚ} (nonneg : ∀ m, 0 ≤ f m)
    (inj : ∀ {m n}, f m = f n ↔ m = n) (none : f .zero = 0) :
    signedValue a (f m) = signedValue b (f n) ↔ m = n ∧ (a = b ∨ m = .zero) := by
  have opposite : ∀ {m n}, -f m = f n → m = n ∧ m = .zero := by
    intro m n same
    have left : f m = 0 := le_antisymm (by linarith [nonneg n]) (nonneg m)
    have right : f n = 0 := by rw [← same, left, neg_zero]
    exact ⟨inj.mp (left.trans right.symm), inj.mp (left.trans none.symm)⟩
  constructor
  · intro same
    cases a <;> cases b <;> dsimp only [signedValue, Bool.false_eq_true, if_true, if_false] at same
    · exact ⟨inj.mp same, .inl rfl⟩
    · obtain ⟨rfl, zero⟩ := opposite same.symm
      exact ⟨rfl, .inr zero⟩
    · exact (opposite same).imp_right .inr
    · exact ⟨inj.mp (neg_inj.mp same), .inl rfl⟩
  · rintro ⟨rfl, rfl | rfl⟩
    · rfl
    · cases a <;> cases b <;> simp [signedValue, none]

theorem chars_comparison_inj :
    comparison.chars (.finite a m) = comparison.chars (.finite b n) ↔
      m = n ∧ (a = b ∨ m = .zero) := by
  constructor
  · intro same
    have values := congrArg value? same
    rw [value?_chars_comparison, value?_chars_comparison, Option.some.injEq] at values
    exact (signedValue_inj written_nonneg written_inj
      (written_eq_zero_iff.mpr (by rw [shortest_zero]))).mp values
  · rintro ⟨rfl, rfl | rfl⟩
    · rfl
    · rw [chars_comparison_zero, chars_comparison_zero]

theorem equal_finite_iff :
    Number.equal (.float (.finite a m)) (.float (.finite b n)) = true ↔
      m = n ∧ (a = b ∨ m = .zero) := by
  have values : Number.equal (.float (.finite a m)) (.float (.finite b n)) = true ↔
      signedValue a m.value = signedValue b n.value := by
    rw [Number.equal_iff]
    simp [Number.value?, signedValue, eq_comm]
  rw [values]
  refine signedValue_inj (fun m => ?_) value_inj ?_
  · exact div_nonneg (Nat.cast_nonneg _) (by positivity)
  · rw [value_eq, Magnitude.zero, Nat.cast_zero, zero_mul]

/-- The parts are the text of a binary64 number, and denote its shortest decimal. -/
structure Exact (negative : Bool) (m : Magnitude) (p : Parts) : Prop where
  valid : p.Valid
  written : comparison.chars (.finite negative m) = withSign negative p.chars
  reads : ofDecimal? m.shortest.digits m.shortest.exponent = some m
  shortest : ∀ digits exponent, ofDecimal? digits exponent = some m →
    m.shortest.chars.length ≤ (Nat.toDigits 10 digits).length
  trimmed : m.shortest.digits % 10 ≠ 0
  denotes : value? (comparison.chars (.finite negative m)) =
    some (signedValue negative (decimalValue m.shortest.digits m.shortest.exponent))
  positional : p.exponent = none ↔ millionth.value ≤ m.value ∧ m.value < 10 ^ 21
  positional_decimal : p.exponent = none ↔
    (10 : ℚ) ^ (-6 : ℤ) ≤ decimalValue m.shortest.digits m.shortest.exponent ∧
      decimalValue m.shortest.digits m.shortest.exponent < (10 : ℚ) ^ (21 : ℤ)
  fraction : p.fraction ≠ [] ↔ ¬ ∃ count : ℕ, p.mantissa = count
  last : p.fraction.getLast? ≠ some '0'

theorem exists_exact (negative : Bool) (some' : m ≠ .zero) : ∃ p, Exact negative m p := by
  obtain ⟨p, writes⟩ := exists_parts comparison_plainTail m.shortest m.exponent_shortest
  have digits := digits_shortest_ne_zero some'
  have decimal : p.exponent = none ↔
      (10 : ℚ) ^ (-6 : ℤ) ≤ m.written ∧ m.written < (10 : ℚ) ^ (21 : ℤ) := by
    have high : m.shortest.point ≤ 21 ↔ ¬ 22 ≤ m.shortest.point := by omega
    rw [writes.positional, comparison, Decimal.le_point_iff digits, high,
      Decimal.le_point_iff digits, not_le]
    rfl
  have bare : p.fraction ≠ [] → p.digits % 10 ≠ 0 := by
    intro shown
    have ending := writes.suffix rfl shown
    rw [Parts.digits, ofDigitChars_mod_ten_of_suffix ending m.shortest.chars_ne_nil,
      m.shortest.ofDigitChars_chars]
    exact digits_shortest_mod_ten some'
  refine ⟨p, ?_⟩
  exact {
    valid := writes.valid
    written := by rw [chars_comparison_of_ne_zero some', writes.chars]
    reads := m.ofDecimal?_shortest
    shortest := fun _ _ => length_shortest_le
    trimmed := digits_shortest_mod_ten some'
    denotes := value?_chars_comparison negative m
    positional := by rw [decimal, millionth_le_iff, lt_sextillion_iff]
    positional_decimal := decimal
    fraction := by
      constructor
      · rintro shown ⟨count, whole⟩
        exact Parts.mantissa_ne_of_digits_mod_ten shown (bare shown) count whole
      · intro broken none
        exact broken ⟨p.digits, Parts.mantissa_of_fraction_eq_nil none⟩
    last := by
      by_cases none : p.fraction = []
      · rw [none]
        simp
      · exact Parts.getLast?_fraction_ne_zero (bare none) }

/-- The text of a number denotes its shortest decimal and shows no more than that takes; zero
has one text, and other numbers share theirs with none. -/
theorem comparison_text_exact :
    ofDecimal? 1 (-6) = some millionth ∧
      (∀ (negative : Bool) (m : Magnitude), m ≠ .zero → ∃ p, Exact negative m p) ∧
      (∀ negative, comparison.chars (.finite negative .zero) = ['0']) ∧
      ∀ (a b : Bool) (m n : Magnitude),
        comparison.chars (.finite a m) = comparison.chars (.finite b n) ↔
          Number.equal (.float (.finite a m)) (.float (.finite b n)) = true := by
  refine ⟨ofDecimal?_millionth, fun negative _ => exists_exact negative, chars_comparison_zero,
    fun a b m n => ?_⟩
  rw [chars_comparison_inj, equal_finite_iff]

theorem chars_comparison_millionth (negative : Bool) :
    comparison.chars (.finite negative millionth) = withSign negative "0.000001".toList := by
  have some' : millionth ≠ .zero := by decide
  rw [chars_comparison_of_ne_zero some', shortest_millionth]
  cases negative <;> decide

/-- Ten to the power of -6 is no binary64 number, and the one nearest to it lies just
below; it is written without an exponent all the same. -/
theorem comparison_text_below_millionth :
    ¬ ∀ (negative : Bool) (m : Magnitude), m ≠ .zero →
      ('e' ∉ comparison.chars (.finite negative m) ↔
        (10 : ℚ) ^ (-6 : ℤ) ≤ m.value ∧ m.value < 10 ^ 21) := by
  intro borders
  have within := (borders false millionth (by decide)).mp (by
    rw [chars_comparison_millionth]
    decide)
  exact absurd within.1 (not_le.mpr value_millionth_lt)

theorem comparison_text_exact_millionth :
    millionth ≠ .zero ∧ comparison.chars (.finite true millionth) = "-0.000001".toList ∧
      (∃ p, Exact true millionth p) ∧
      comparison.chars (.finite true .zero) = comparison.chars (.finite false .zero) := by
  have some' : millionth ≠ .zero := by decide
  exact ⟨some', chars_comparison_millionth true, comparison_text_exact.2.1 true millionth some',
    (comparison_text_exact.2.2.2 true false .zero .zero).mpr (by decide)⟩

end Layout

end PathQuery
