/-!
# Binary64 numbers

A finite binary64 number is a sign and a magnitude, and a magnitude is a whole
number of units of 2^-1074: a significand of at most 53 bits shifted left by at
most 2045 places, with a significand of full width unless the shift is zero.
That form is unique, so equality of magnitudes is equality of what they stand for.

`Magnitude.nearest` rounds a quotient of natural numbers to the nearest
magnitude, a tie to the even significand; `Magnitude.ofDecimal?` does so for a
decimal numeral.  Neither has an answer where the result would need a larger
shift: that is overflow.
-/

set_option autoImplicit false

namespace PathQuery

def fullWidth : Nat := 0x10000000000000

structure Magnitude where
  significand : Nat
  shift : Nat
  significand_lt : significand < 2 * fullWidth
  shift_le : shift ≤ 2045
  canonical : shift = 0 ∨ fullWidth ≤ significand
deriving DecidableEq

namespace Magnitude

def zero : Magnitude := ⟨0, 0, by decide, by decide, .inl rfl⟩

/-- The magnitude in units of 2^-1074. -/
def units (m : Magnitude) : Nat := m.significand <<< m.shift

/-- The natural number nearest to `num / den`, of two the even one. -/
def roundHalfEven (num den : Nat) : Nat :=
  let low := num / den
  let twice := 2 * (num % den)
  if twice < den ∨ twice = den ∧ low % 2 = 0 then low else low + 1

theorem le_roundHalfEven (num den : Nat) : num / den ≤ roundHalfEven num den := by
  unfold roundHalfEven
  dsimp only
  split <;> omega

def placeOf (num den : Nat) : Nat := (num / den).log2 - 52

theorem fullWidth_le_div_placeOf {num den : Nat} (h : placeOf num den ≠ 0) :
    fullWidth ≤ num / (den <<< placeOf num den) := by
  have place : placeOf num den = (num / den).log2 - 52 := rfl
  have positive : num / den ≠ 0 := by
    intro none
    rw [placeOf, none] at h
    exact h (by decide)
  have size : 2 ^ (52 + placeOf num den) ≤ num / den := by
    apply (Nat.le_log2 positive).mp
    omega
  rw [Nat.shiftLeft_eq, ← Nat.div_div_eq_div_mul, Nat.le_div_iff_mul_le (Nat.two_pow_pos _)]
  rw [Nat.pow_add] at size
  exact size

def nearest (num den : Nat) : Option Magnitude :=
  let place := placeOf num den
  let rounded := roundHalfEven num (den <<< place)
  if narrow : rounded < 2 * fullWidth then
    if inside : place ≤ 2045 then
      some ⟨rounded, place, narrow, inside, by
        by_cases h : place = 0
        · exact .inl h
        · exact .inr (Nat.le_trans (fullWidth_le_div_placeOf h) (le_roundHalfEven _ _))⟩
    else none
  else if inside : place + 1 ≤ 2045 then
    some ⟨fullWidth, place + 1, by decide, inside, .inr (Nat.le_refl _)⟩
  else none

/-- The magnitude nearest to `digits · 10 ^ exponent`.  The two tests on the
exponent answer what rounding would answer, without computing the powers. -/
def ofDecimal? (digits : Nat) (exponent : Int) : Option Magnitude :=
  if digits = 0 ∨ exponent + digits.log2 + 1 < -400 then some zero
  else if 400 < exponent then none
  else
    nearest ((digits * Nat.pow 10 exponent.toNat) <<< 1074) (Nat.pow 10 (-exponent).toNat)

end Magnitude

inductive Double
  | nan
  | infinite (negative : Bool)
  | finite (negative : Bool) (magnitude : Magnitude)
deriving DecidableEq

namespace Double

def ofDecimal (negative : Bool) (digits : Nat) (exponent : Int) : Double :=
  match Magnitude.ofDecimal? digits exponent with
  | some magnitude => finite negative magnitude
  | none => infinite negative

end Double

end PathQuery
