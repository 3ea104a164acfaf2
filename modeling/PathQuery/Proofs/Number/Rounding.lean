import Mathlib.Algebra.Order.Field.Rat
import Mathlib.Tactic.NormNum
import Mathlib.Tactic.Ring
import PathQuery.Number.Shortest

/-!
# Rounding looks at values only

Two quotients with one value are rounded alike (`nearest_congr`), and what is a
magnitude already is rounded to itself (`nearest_units`).  So a decimal is read
by its value, however its digits and its exponent share it out
(`ofDecimal?_congr`): the tests on the exponent that save computing large powers
answer what rounding answers (`ofDecimal?_eq_nearest`).
-/

set_option autoImplicit false

namespace PathQuery

namespace Magnitude

section Scaled

variable {factor : Nat} (positive : 0 < factor) (num den : Nat)

include positive

theorem roundHalfEven_mul_mul :
    roundHalfEven (factor * num) (factor * den) = roundHalfEven num den := by
  have twice : 2 * (factor * num % (factor * den)) = factor * (2 * (num % den)) := by
    rw [Nat.mul_mod_mul_left, Nat.mul_left_comm]
  simp only [roundHalfEven, twice, Nat.mul_div_mul_left _ _ positive,
    Nat.mul_lt_mul_left positive, Nat.mul_right_inj positive.ne']

theorem placeOf_mul_mul : placeOf (factor * num) (factor * den) = placeOf num den := by
  rw [placeOf, placeOf, Nat.mul_div_mul_left _ _ positive]

end Scaled

/-- The two ways to a rounded quotient: the place may move up by one where rounding carries. -/
theorem nearest_eq_some_iff {num den : Nat} {m : Magnitude} :
    nearest num den = some m ↔
      (roundHalfEven num (den <<< placeOf num den) < 2 * fullWidth ∧
        m.significand = roundHalfEven num (den <<< placeOf num den) ∧
          m.shift = placeOf num den) ∨
      (2 * fullWidth ≤ roundHalfEven num (den <<< placeOf num den) ∧
        m.significand = fullWidth ∧ m.shift = placeOf num den + 1) := by
  have bound := m.shift_le
  rw [nearest]
  by_cases narrow : roundHalfEven num (den <<< placeOf num den) < 2 * fullWidth
  · rw [dif_pos narrow]
    constructor
    · intro found
      split at found
      · cases found
        exact .inl ⟨narrow, rfl, rfl⟩
      · cases found
    · intro either
      obtain ⟨-, significand, shift⟩ | ⟨wide, -⟩ := either
      · rw [dif_pos (shift ▸ bound)]
        cases m
        simp only at significand shift
        simp only [significand, shift]
      · exact absurd narrow (Nat.not_lt.mpr wide)
  · rw [dif_neg narrow]
    constructor
    · intro found
      split at found
      · cases found
        exact .inr ⟨Nat.not_lt.mp narrow, rfl, rfl⟩
      · cases found
    · intro either
      obtain ⟨small, -⟩ | ⟨-, significand, shift⟩ := either
      · exact absurd small narrow
      · rw [dif_pos (shift ▸ bound)]
        cases m
        simp only at significand shift
        simp only [significand, shift]

theorem nearest_mul_mul {factor : Nat} (positive : 0 < factor) (num den : Nat) :
    nearest (factor * num) (factor * den) = nearest num den := by
  ext m
  simp only [nearest_eq_some_iff, placeOf_mul_mul positive, Nat.shiftLeft_eq,
    Nat.mul_assoc, roundHalfEven_mul_mul positive]

theorem nearest_congr {num den other size : Nat} (positive : 0 < den) (positive' : 0 < size)
    (same : num * size = other * den) : nearest num den = nearest other size := by
  rw [← nearest_mul_mul positive', ← nearest_mul_mul positive other, Nat.mul_comm size num, same,
    Nat.mul_comm other den, Nat.mul_comm size den]

theorem roundHalfEven_mul {den : Nat} (positive : 0 < den) (whole : Nat) :
    roundHalfEven (whole * den) den = whole := by
  rw [roundHalfEven, Nat.mul_mod_left, Nat.mul_div_cancel _ positive]
  exact if_pos (.inl positive)

theorem placeOf_units (m : Magnitude) : placeOf m.units 1 = m.shift := by
  rw [placeOf, Nat.div_one, units, Nat.shiftLeft_eq]
  rcases m.canonical with low | full
  · have narrow : m.significand < 2 ^ 53 := m.significand_lt
    rw [low, Nat.pow_zero, Nat.mul_one]
    by_cases none : m.significand = 0
    · rw [none]
      rfl
    · have size := (Nat.log2_lt none).mpr narrow
      omega
  · have least : 2 ^ 52 ≤ m.significand := full
    have narrow : m.significand < 2 ^ 53 := m.significand_lt
    have some' : m.significand * 2 ^ m.shift ≠ 0 :=
      Nat.mul_ne_zero (Nat.ne_of_gt (Nat.lt_of_lt_of_le (Nat.two_pow_pos 52) least))
        (Nat.two_pow_pos _).ne'
    have size : (m.significand * 2 ^ m.shift).log2 = 52 + m.shift := by
      rw [Nat.log2_eq_iff some', Nat.add_right_comm, Nat.pow_add, Nat.pow_add]
      exact ⟨Nat.mul_le_mul_right _ least, Nat.mul_lt_mul_of_pos_right narrow (Nat.two_pow_pos _)⟩
    rw [size, Nat.add_sub_cancel_left]

theorem nearest_units (m : Magnitude) {den : Nat} (positive : 0 < den) :
    nearest (m.units * den) den = some m := by
  have whole : nearest (m.units * den) den = nearest m.units 1 :=
    nearest_congr positive Nat.one_pos (by rw [Nat.mul_one])
  rw [whole, nearest_eq_some_iff, placeOf_units, units, Nat.shiftLeft_eq, Nat.shiftLeft_eq,
    Nat.one_mul, roundHalfEven_mul (Nat.two_pow_pos _)]
  exact .inl ⟨m.significand_lt, rfl, rfl⟩

theorem nearest_of_lt_half {num den : Nat} (small : 2 * num < den) :
    nearest num den = some zero := by
  have quotient : num / den = 0 := Nat.div_eq_of_lt (by omega)
  have place : placeOf num den = 0 := by
    rw [placeOf, quotient]
    rfl
  have rounded : roundHalfEven num den = 0 := by
    rw [roundHalfEven, quotient, Nat.mod_eq_of_lt (by omega)]
    exact if_pos (.inl small)
  rw [nearest_eq_some_iff, place, Nat.shiftLeft_zero, rounded]
  exact .inl ⟨by decide, rfl, rfl⟩

theorem nearest_of_large {num den : Nat} (large : 2 ^ 2098 ≤ num / den) :
    nearest num den = none := by
  have some' : num / den ≠ 0 := by
    have := Nat.two_pow_pos 2098
    omega
  have size := (Nat.le_log2 some').mpr large
  have place : placeOf num den = (num / den).log2 - 52 := rfl
  rw [Option.eq_none_iff_forall_ne_some]
  intro m found
  have bound := m.shift_le
  rw [nearest_eq_some_iff] at found
  omega

/-! ## Decimals -/

theorem eight_pow_le (power : Nat) : 2 ^ (3 * power) ≤ 10 ^ power := by
  rw [Nat.pow_mul]
  exact Nat.pow_le_pow_left (by decide) power

theorem two_mul_lt_of_small {digits power shift : Nat}
    (small : digits.log2 + 2 + shift ≤ 3 * power) : 2 * digits <<< shift < 10 ^ power := by
  have few : digits < 2 ^ (digits.log2 + 1) := Nat.lt_log2_self
  calc 2 * digits <<< shift = digits * 2 ^ (shift + 1) := by
        rw [Nat.shiftLeft_eq, Nat.mul_left_comm, ← Nat.pow_succ']
    _ < 2 ^ (digits.log2 + 1) * 2 ^ (shift + 1) :=
      Nat.mul_lt_mul_of_pos_right few (Nat.two_pow_pos _)
    _ = 2 ^ (digits.log2 + 1 + (shift + 1)) := (Nat.pow_add ..).symm
    _ ≤ 2 ^ (3 * power) := Nat.pow_le_pow_right (by decide) (by omega)
    _ ≤ 10 ^ power := eight_pow_le power

theorem le_of_large {digits power shift size : Nat} (some' : digits ≠ 0)
    (large : size ≤ 3 * power + shift) : 2 ^ size ≤ (digits * 10 ^ power) <<< shift := by
  calc 2 ^ size ≤ 2 ^ (3 * power + shift) := Nat.pow_le_pow_right (by decide) large
    _ = 2 ^ (3 * power) * 2 ^ shift := Nat.pow_add ..
    _ ≤ 10 ^ power * 2 ^ shift := Nat.mul_le_mul_right _ (eight_pow_le power)
    _ ≤ digits * 10 ^ power * 2 ^ shift :=
      Nat.mul_le_mul_right _ (Nat.le_mul_of_pos_left _ (Nat.pos_of_ne_zero some'))
    _ = (digits * 10 ^ power) <<< shift := (Nat.shiftLeft_eq ..).symm

theorem ofDecimal?_eq_nearest (digits : Nat) (exponent : Int) :
    ofDecimal? digits exponent =
      nearest ((digits * 10 ^ exponent.toNat) <<< 1074) (10 ^ (-exponent).toNat) := by
  rw [ofDecimal?]
  split
  · rename_i small
    rw [nearest_of_lt_half]
    by_cases none : digits = 0
    · rw [none, Nat.zero_mul, Nat.zero_shiftLeft]
      exact Nat.pow_pos (by decide)
    · have below := small.resolve_left none
      have whole : exponent.toNat = 0 := by omega
      rw [whole, Nat.pow_zero, Nat.mul_one]
      exact two_mul_lt_of_small (by omega)
  · rename_i either
    rw [not_or] at either
    split
    · rename_i large
      have whole : (-exponent).toNat = 0 := by omega
      rw [whole, Nat.pow_zero, nearest_of_large]
      rw [Nat.div_one]
      exact le_of_large either.1 (by omega)
    · rfl

end Magnitude

def decimalValue (digits : Nat) (exponent : Int) : ℚ := digits * (10 : ℚ) ^ exponent

theorem decimalValue_mul_ten_pow (digits : Nat) (exponent : Int) (power : Nat) :
    decimalValue (digits * 10 ^ power) exponent = decimalValue digits (exponent + power) := by
  rw [decimalValue, decimalValue, zpow_add₀ (by norm_num), zpow_natCast]
  push_cast
  ring

theorem decimalValue_mul_pow (digits : Nat) (exponent : Int) :
    decimalValue digits exponent * (10 : ℚ) ^ (-exponent).toNat =
      (digits * 10 ^ exponent.toNat : Nat) := by
  have split : exponent + ((-exponent).toNat : Int) = exponent.toNat := by omega
  rw [decimalValue, mul_assoc, ← zpow_natCast, ← zpow_add₀ (by norm_num), split, zpow_natCast]
  push_cast
  rfl

namespace Magnitude

theorem ofDecimal?_congr {digits other : Nat} {exponent power : Int}
    (same : decimalValue digits exponent = decimalValue other power) :
    ofDecimal? digits exponent = ofDecimal? other power := by
  rw [ofDecimal?_eq_nearest, ofDecimal?_eq_nearest]
  apply nearest_congr (Nat.pow_pos (by decide)) (Nat.pow_pos (by decide))
  have cross : digits * 10 ^ exponent.toNat * 10 ^ (-power).toNat =
      other * 10 ^ power.toNat * 10 ^ (-exponent).toNat := by
    have cast : ((digits * 10 ^ exponent.toNat * 10 ^ (-power).toNat : Nat) : ℚ) =
        (other * 10 ^ power.toNat * 10 ^ (-exponent).toNat : Nat) := by
      rw [Nat.cast_mul, Nat.cast_mul (other * _), ← decimalValue_mul_pow, ← decimalValue_mul_pow,
        same]
      push_cast
      ring
    exact_mod_cast cast
  rw [Nat.shiftLeft_eq, Nat.shiftLeft_eq, Nat.mul_right_comm, cross, Nat.mul_right_comm]

end Magnitude

theorem Decimal.value_trim (digits : Nat) (exponent : Int) :
    decimalValue (trim digits exponent).digits (trim digits exponent).exponent =
      decimalValue digits exponent := by
  induction digits, exponent using trim.induct with
  | case1 exponent =>
    rw [trim, if_pos rfl, decimalValue, decimalValue]
    simp
  | case2 digits exponent some' zero ih =>
    have whole : digits / 10 * 10 ^ 1 = digits := by omega
    have moved := decimalValue_mul_ten_pow (digits / 10) exponent 1
    rw [trim, if_neg some', if_pos zero, ih, ← Nat.cast_one, ← moved, whole]
  | case3 digits exponent some' nonzero =>
    rw [trim, if_neg some', if_neg nonzero]

theorem Decimal.exponent_trim (digits : Nat) (exponent : Int)
    (zero : (trim digits exponent).digits = 0) : (trim digits exponent).exponent = 0 := by
  induction digits, exponent using trim.induct with
  | case1 exponent => rw [trim, if_pos rfl]
  | case2 digits exponent some' last ih =>
    rw [trim, if_neg some', if_pos last] at zero ⊢
    exact ih zero
  | case3 digits exponent some' last =>
    rw [trim, if_neg some', if_neg last] at zero
    exact absurd zero some'

namespace Magnitude

/-- What a rounding comes from: one of the two decimals next to the exact value. -/
theorem exists_of_rounding? {m : Magnitude} {dropped : Nat} {d : Decimal}
    (found : m.rounding? dropped = some d) :
    ∃ digits, (digits = m.exact / 10 ^ dropped ∨ digits = m.exact / 10 ^ dropped + 1) ∧
      m.readsBack dropped digits = true ∧ d = Decimal.trim digits (dropped - 1074) := by
  rw [rounding?, Option.map_eq_some_iff] at found
  obtain ⟨digits, choice, rfl⟩ := found
  suffices tried : (digits = m.exact / 10 ^ dropped ∨ digits = m.exact / 10 ^ dropped + 1) ∧
      m.readsBack dropped digits = true from ⟨digits, tried.1, tried.2, rfl⟩
  split at choice
  · rename_i low high
    split at choice
    · cases choice
      exact ⟨.inl rfl, low⟩
    · cases choice
      exact ⟨.inr rfl, high⟩
  · rename_i low _
    cases choice
    exact ⟨.inl rfl, low⟩
  · rename_i _ high
    cases choice
    exact ⟨.inr rfl, high⟩
  · cases choice

theorem shiftLeft_mul_pow (units power : Nat) :
    (units * Nat.pow 5 power) <<< power = units * 10 ^ power := by
  rw [Nat.shiftLeft_eq, Nat.mul_assoc]
  exact congrArg (units * ·) (Nat.mul_pow 5 2 power).symm

theorem ofDecimal?_exact (m : Magnitude) : ofDecimal? m.exact (-1074) = some m := by
  have power : (-1074 : Int).toNat = 0 := rfl
  have negated : (- -1074 : Int).toNat = 1074 := rfl
  rw [ofDecimal?_eq_nearest, power, negated, Nat.pow_zero, Nat.mul_one, exact]
  -- As a variable the exponent tempts nothing to compute its powers.
  generalize 1074 = shift
  rw [shiftLeft_mul_pow]
  exact nearest_units m (Nat.pow_pos (by decide))

theorem exists_trim_of_shortest (m : Magnitude) :
    ∃ digits exponent, m.shortest = Decimal.trim digits exponent ∧
      ofDecimal? digits exponent = some m := by
  rw [shortest]
  cases search : (List.range (Nat.toDigits 10 m.exact).length).findSome? fun kept =>
      m.rounding? ((Nat.toDigits 10 m.exact).length - 1 - kept) with
  | none => exact ⟨m.exact, -1074, by rw [Option.getD_none], m.ofDecimal?_exact⟩
  | some d =>
    obtain ⟨kept, -, found⟩ := List.exists_of_findSome?_eq_some search
    obtain ⟨digits, -, reads, rfl⟩ := exists_of_rounding? found
    exact ⟨digits, _, by rw [Option.getD_some], of_decide_eq_true reads⟩

theorem ofDecimal?_shortest (m : Magnitude) :
    ofDecimal? m.shortest.digits m.shortest.exponent = some m := by
  obtain ⟨digits, exponent, shape, reads⟩ := m.exists_trim_of_shortest
  rw [shape, ← reads]
  exact ofDecimal?_congr (Decimal.value_trim digits exponent)

theorem exponent_shortest (m : Magnitude) (zero : m.shortest.digits = 0) :
    m.shortest.exponent = 0 := by
  obtain ⟨digits, exponent, shape, -⟩ := m.exists_trim_of_shortest
  rw [shape] at zero ⊢
  exact Decimal.exponent_trim digits exponent zero

end Magnitude

end PathQuery
