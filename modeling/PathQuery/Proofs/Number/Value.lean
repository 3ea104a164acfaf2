import Mathlib.Algebra.Order.Ring.WithTop
import PathQuery.Number.Basic
import PathQuery.Proofs.Number.Rounding

/-!
# What numbers stand for

A magnitude stands for a rational number, and no two of them for the same one
(`Magnitude.value_inj`).  Numbers stand for rationals or for one of the
infinities at both ends, and comparing numbers compares what they stand for
(`Number.less_iff`, `Number.equal_iff`): nothing is rounded on the way, and NaN,
which stands for nothing, is left out.
-/

set_option autoImplicit false

namespace PathQuery

namespace Magnitude

def value (m : Magnitude) : ℚ := m.units / 2 ^ 1074

theorem value_eq (m : Magnitude) :
    m.value = m.significand * (2 : ℚ) ^ ((m.shift : ℤ) - 1074) := by
  have unit : (2 : ℚ) ^ (1074 : ℤ) = 2 ^ 1074 := zpow_natCast 2 1074
  rw [value, units, Nat.shiftLeft_eq, zpow_sub₀ (by norm_num), zpow_natCast, unit]
  push_cast
  rw [mul_div_assoc]

theorem units_inj {m n : Magnitude} : m.units = n.units ↔ m = n := by
  constructor
  · intro same
    have read := m.nearest_units Nat.one_pos
    rw [same, n.nearest_units Nat.one_pos] at read
    exact (Option.some.inj read).symm
  · exact congrArg units

theorem value_lt_iff {m n : Magnitude} : m.value < n.value ↔ m.units < n.units := by
  rw [value, value, div_lt_div_iff_of_pos_right (by positivity), Nat.cast_lt]

theorem value_inj {m n : Magnitude} : m.value = n.value ↔ m = n := by
  rw [value, value, div_left_inj' (by positivity), Nat.cast_inj, units_inj]

end Magnitude

abbrev ExtendedRat := WithBot (WithTop ℚ)

namespace Number

/-- What a number stands for; NaN stands for nothing. -/
def value? : Number → Option ExtendedRat
  | .int value => some ((value : ℚ) : WithTop ℚ)
  | .float .nan => none
  | .float (.infinite true) => some ⊥
  | .float (.infinite false) => some (⊤ : WithTop ℚ)
  | .float (.finite negative m) =>
    some (((if negative then -m.value else m.value : ℚ) : WithTop ℚ))

end Number

namespace Extent

def place : Extent → ExtendedRat
  | .below => ⊥
  | .finite units => ((units / 2 ^ 1074 : ℚ) : WithTop ℚ)
  | .above => (⊤ : WithTop ℚ)

theorem less_iff {x y : Extent} : x.less y = true ↔ x.place < y.place := by
  cases x with
  | below => cases y <;> simp [less, place, WithBot.bot_lt_coe]
  | above => cases y <;> simp [less, place]
  | finite units =>
    cases y with
    | below => simp [less, place]
    | finite others => simp [less, place, div_lt_div_iff_of_pos_right]
    | above => exact iff_of_true rfl (WithBot.coe_lt_coe.mpr (WithTop.coe_lt_top _))

theorem place_inj {x y : Extent} : x.place = y.place ↔ x = y := by
  cases x <;> cases y <;> simp [place]

end Extent

namespace Number

theorem cast_one_shiftLeft (shift : Nat) : ((1 <<< shift : Nat) : ℚ) = 2 ^ shift := by
  rw [Nat.one_shiftLeft, Nat.cast_pow, Nat.cast_ofNat]

theorem cast_mul_unitsOfOne (value : Int) :
    ((value * unitsOfOne : Int) : ℚ) / 2 ^ 1074 = value := by
  have one : (unitsOfOne : ℚ) = 2 ^ 1074 := cast_one_shiftLeft 1074
  rw [Int.cast_mul, Int.cast_natCast, one, mul_div_assoc, div_self (by positivity), mul_one]

theorem value?_eq (number : Number) : number.value? = number.extent?.map Extent.place := by
  cases number with
  | int value => rw [value?, extent?, Option.map_some, Extent.place, cast_mul_unitsOfOne]
  | float value =>
    cases value with
    | nan => rfl
    | infinite negative => cases negative <;> rfl
    | finite negative m =>
      rw [value?, extent?, Option.map_some, Extent.place]
      cases negative <;> simp [Magnitude.value, neg_div]

variable {a b : Number}

theorem less_iff : a.less b = true ↔
    ∃ x y, a.value? = some x ∧ b.value? = some y ∧ x < y := by
  rw [less, value?_eq, value?_eq]
  cases a.extent? <;> cases b.extent? <;> simp [Extent.less_iff]

theorem equal_iff : a.equal b = true ↔ ∃ x, a.value? = some x ∧ b.value? = some x := by
  rw [equal, value?_eq, value?_eq]
  cases a.extent? <;> cases b.extent? <;> simp [← Extent.place_inj, eq_comm]

theorem value?_eq_none_iff : a.value? = none ↔ a = .float .nan := by
  cases a with
  | int value => simp [value?]
  | float value =>
    cases value with
    | nan => simp [value?]
    | infinite negative => cases negative <;> simp [value?]
    | finite negative m => simp [value?]

end Number

end PathQuery
