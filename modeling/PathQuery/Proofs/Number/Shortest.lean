import Mathlib.Data.Nat.Log
import Mathlib.Tactic.Linarith
import PathQuery.Proofs.Number.Value

/-!
# Shortest decimals are shortest

Rounding keeps the order of quotients (`roundedUnits_mono`), so whatever lies
between two decimals that read back reads back too (`ofDecimal?_between`).  A
decimal of few digits therefore cannot read back unless one of the two decimals
of that many digits does that are next to the exact value.  The search tries
these, shorter ones first, and so finds no longer decimal than there is
(`length_shortest_le`).  Magnitudes are in the order of their shortest decimals
(`written_le_iff`).
-/

set_option autoImplicit false

namespace PathQuery

namespace Magnitude

theorem roundHalfEven_le (num den : Nat) : roundHalfEven num den ≤ num / den + 1 := by
  unfold roundHalfEven
  dsimp only
  split <;> omega

section Ordered

variable {num den other size : Nat} (positive : 0 < den) (positive' : 0 < size)
  (order : num * size ≤ other * den)

include positive positive' order

theorem div_le_div_of_cross : num / den ≤ other / size := by
  rw [Nat.le_div_iff_mul_le positive']
  refine Nat.le_of_mul_le_mul_right ?_ positive
  calc num / den * size * den = num / den * den * size := Nat.mul_right_comm ..
    _ ≤ num * size := Nat.mul_le_mul_right _ (Nat.div_mul_le_self num den)
    _ ≤ other * den := order

theorem roundHalfEven_mono : roundHalfEven num den ≤ roundHalfEven other size := by
  by_cases apart : num / den < other / size
  · calc roundHalfEven num den ≤ num / den + 1 := roundHalfEven_le num den
      _ ≤ other / size := apart
      _ ≤ roundHalfEven other size := le_roundHalfEven other size
  · have same : num / den = other / size :=
      Nat.le_antisymm (div_le_div_of_cross positive positive' order) (Nat.not_lt.mp apart)
    -- Over one whole part the remainders are in order, so the greater is not the one rounded down.
    have rests : num % den * size ≤ other % size * den := by
      have first := Nat.div_add_mod num den
      have second := Nat.div_add_mod other size
      rw [← same] at second
      nlinarith
    have down : 2 * (other % size) ≤ size → 2 * (num % den) ≤ den := by
      intro below
      by_contra above
      nlinarith
    have strictly : 2 * (other % size) < size → 2 * (num % den) < den := by
      intro below
      by_contra above
      nlinarith
    unfold roundHalfEven
    dsimp only
    rw [same]
    split
    · split <;> omega
    · split
      · omega
      · exact Nat.le_refl _

theorem placeOf_mono : placeOf num den ≤ placeOf other size := by
  have floors := div_le_div_of_cross positive positive' order
  rw [placeOf, placeOf, Nat.log2_eq_log_two, Nat.log2_eq_log_two]
  exact Nat.sub_le_sub_right (Nat.log_mono_right floors) 52

end Ordered

theorem roundHalfEven_placeOf_le (num den : Nat) :
    roundHalfEven num (den <<< placeOf num den) ≤ 2 * fullWidth := by
  have width : num / den < 2 ^ ((num / den).log2 + 1) := Nat.lt_log2_self
  have place : placeOf num den = (num / den).log2 - 52 := rfl
  have floor : num / (den <<< placeOf num den) < 2 ^ 53 := by
    rw [Nat.shiftLeft_eq, ← Nat.div_div_eq_div_mul, Nat.div_lt_iff_lt_mul (Nat.two_pow_pos _),
      ← Nat.pow_add]
    exact Nat.lt_of_lt_of_le width (Nat.pow_le_pow_right (by decide) (by omega))
  exact Nat.le_trans (roundHalfEven_le _ _) floor

def roundedUnits (num den : Nat) : Nat :=
  roundHalfEven num (den <<< placeOf num den) <<< placeOf num den

/-- At a higher place the significand has full width, which outweighs any at a lower place. -/
theorem roundedUnits_mono {num den other size : Nat} (positive : 0 < den) (positive' : 0 < size)
    (order : num * size ≤ other * den) : roundedUnits num den ≤ roundedUnits other size := by
  have places := placeOf_mono positive positive' order
  rw [roundedUnits, roundedUnits, Nat.shiftLeft_eq _ (placeOf num den),
    Nat.shiftLeft_eq _ (placeOf other size)]
  by_cases same : placeOf num den = placeOf other size
  · rw [same]
    refine Nat.mul_le_mul_right _ (roundHalfEven_mono ?_ ?_ ?_)
    · rw [Nat.shiftLeft_eq]
      exact Nat.mul_pos positive (Nat.two_pow_pos _)
    · rw [Nat.shiftLeft_eq]
      exact Nat.mul_pos positive' (Nat.two_pow_pos _)
    · rw [Nat.shiftLeft_eq, Nat.shiftLeft_eq, ← Nat.mul_assoc, ← Nat.mul_assoc]
      exact Nat.mul_le_mul_right _ order
  · have full : fullWidth ≤ roundHalfEven other (size <<< placeOf other size) :=
      Nat.le_trans (fullWidth_le_div_placeOf (by omega)) (le_roundHalfEven _ _)
    calc roundHalfEven num (den <<< placeOf num den) * 2 ^ placeOf num den
        ≤ 2 * fullWidth * 2 ^ placeOf num den :=
          Nat.mul_le_mul_right _ (roundHalfEven_placeOf_le num den)
      _ = fullWidth * 2 ^ (placeOf num den + 1) := by rw [Nat.pow_succ']; ring
      _ ≤ fullWidth * 2 ^ placeOf other size :=
          Nat.mul_le_mul_left _ (Nat.pow_le_pow_right (by decide) (by omega))
      _ ≤ _ := Nat.mul_le_mul_right _ full

theorem units_eq_of_nearest {num den : Nat} {m : Magnitude} (found : nearest num den = some m) :
    m.units = roundedUnits num den := by
  rw [roundedUnits, units]
  obtain ⟨-, significand, shift⟩ | ⟨wide, significand, shift⟩ := nearest_eq_some_iff.mp found
  · rw [significand, shift]
  · have carried := Nat.le_antisymm (roundHalfEven_placeOf_le num den) wide
    rw [significand, shift, carried, Nat.shiftLeft_eq, Nat.shiftLeft_eq, Nat.pow_succ']
    ring

theorem units_lt_of_nearest_eq_none {num den : Nat} (overflow : nearest num den = none)
    (m : Magnitude) : m.units < roundedUnits num den := by
  have bound := m.shift_le
  have below : m.units < 2 * fullWidth * 2 ^ m.shift := by
    rw [units, Nat.shiftLeft_eq]
    exact Nat.mul_lt_mul_of_pos_right m.significand_lt (Nat.two_pow_pos _)
  refine Nat.lt_of_lt_of_le below ?_
  rw [roundedUnits, Nat.shiftLeft_eq _ (placeOf num den)]
  rw [nearest] at overflow
  split at overflow
  · split at overflow
    · cases overflow
    · have full : fullWidth ≤ roundHalfEven num (den <<< placeOf num den) :=
        Nat.le_trans (fullWidth_le_div_placeOf (by omega)) (le_roundHalfEven _ _)
      calc 2 * fullWidth * 2 ^ m.shift = fullWidth * 2 ^ (m.shift + 1) := by
            rw [Nat.pow_succ']
            ring
        _ ≤ _ := Nat.mul_le_mul full (Nat.pow_le_pow_right (by decide) (by omega))
  · rename_i wide
    split at overflow
    · cases overflow
    · exact Nat.mul_le_mul (Nat.not_lt.mp wide) (Nat.pow_le_pow_right (by decide) (by omega))

theorem nearest_eq_some_iff_units {num den : Nat} {m : Magnitude} :
    nearest num den = some m ↔ m.units = roundedUnits num den := by
  refine ⟨units_eq_of_nearest, fun same => ?_⟩
  cases rounded : nearest num den with
  | some n => rw [units_inj.mp (same.trans (units_eq_of_nearest rounded).symm)]
  | none => exact absurd same (units_lt_of_nearest_eq_none rounded m).ne

section Decimals

variable {digits other third : Nat} {exponent power last : Int} {m n : Magnitude}

theorem cross_le_of_decimalValue_le
    (order : decimalValue digits exponent ≤ decimalValue other power) :
    (digits * 10 ^ exponent.toNat) <<< 1074 * 10 ^ (-power).toNat ≤
      (other * 10 ^ power.toNat) <<< 1074 * 10 ^ (-exponent).toNat := by
  have cast : ((digits * 10 ^ exponent.toNat * 10 ^ (-power).toNat : Nat) : ℚ) ≤
      (other * 10 ^ power.toNat * 10 ^ (-exponent).toNat : Nat) := by
    rw [Nat.cast_mul, Nat.cast_mul (other * _), ← decimalValue_mul_pow, ← decimalValue_mul_pow]
    push_cast
    calc decimalValue digits exponent * 10 ^ (-exponent).toNat * 10 ^ (-power).toNat
        ≤ decimalValue other power * 10 ^ (-exponent).toNat * 10 ^ (-power).toNat := by gcongr
      _ = decimalValue other power * 10 ^ (-power).toNat * 10 ^ (-exponent).toNat := by ring
  have cross := Nat.cast_le.mp cast
  rw [Nat.shiftLeft_eq, Nat.shiftLeft_eq, Nat.mul_right_comm, Nat.mul_right_comm (other * _)]
  exact Nat.mul_le_mul_right _ cross

theorem ofDecimal?_mono (order : decimalValue digits exponent ≤ decimalValue other power)
    (first : ofDecimal? digits exponent = some m) (second : ofDecimal? other power = some n) :
    m.units ≤ n.units := by
  rw [ofDecimal?_eq_nearest, nearest_eq_some_iff_units] at first second
  rw [first, second]
  exact roundedUnits_mono (Nat.pow_pos (by decide)) (Nat.pow_pos (by decide))
    (cross_le_of_decimalValue_le order)

theorem ofDecimal?_between (low : decimalValue digits exponent ≤ decimalValue other power)
    (high : decimalValue other power ≤ decimalValue third last)
    (first : ofDecimal? digits exponent = some m) (second : ofDecimal? third last = some m) :
    ofDecimal? other power = some m := by
  rw [ofDecimal?_eq_nearest, nearest_eq_some_iff_units] at first second ⊢
  refine Nat.le_antisymm ?_ ?_
  · rw [first]
    exact roundedUnits_mono (Nat.pow_pos (by decide)) (Nat.pow_pos (by decide))
      (cross_le_of_decimalValue_le low)
  · rw [second]
    exact roundedUnits_mono (Nat.pow_pos (by decide)) (Nat.pow_pos (by decide))
      (cross_le_of_decimalValue_le high)

end Decimals

end Magnitude

namespace Decimal

theorem digits_trim_le (digits : Nat) (exponent : Int) :
    (trim digits exponent).digits ≤ digits := by
  induction digits, exponent using trim.induct with
  | case1 exponent => rw [trim, if_pos rfl]
  | case2 digits exponent some' last ih =>
    rw [trim, if_neg some', if_pos last]
    exact Nat.le_trans ih (Nat.div_le_self digits 10)
  | case3 digits exponent some' last => rw [trim, if_neg some', if_neg last]

theorem digits_trim_mod_ten (digits : Nat) (exponent : Int) :
    (trim digits exponent).digits = 0 ∨ (trim digits exponent).digits % 10 ≠ 0 := by
  induction digits, exponent using trim.induct with
  | case1 exponent =>
    rw [trim, if_pos rfl]
    exact .inl rfl
  | case2 digits exponent some' last ih => rwa [trim, if_neg some', if_pos last]
  | case3 digits exponent some' last =>
    rw [trim, if_neg some', if_neg last]
    exact .inr last

theorem length_chars_trim_le {digits width : Nat} (exponent : Int) (some' : 0 < width)
    (few : digits ≤ 10 ^ width) : (trim digits exponent).chars.length ≤ width := by
  rw [chars, Nat.length_toDigits_le_iff (by decide) some']
  refine Nat.lt_of_le_of_ne (Nat.le_trans (digits_trim_le digits exponent) few) fun power => ?_
  have last := digits_trim_mod_ten digits exponent
  rw [power] at last
  have positive : 0 < 10 ^ width := Nat.pow_pos (by decide)
  obtain zero | nonzero := last
  · omega
  · exact nonzero (Nat.mod_eq_zero_of_dvd (dvd_pow_self 10 some'.ne'))

end Decimal

theorem decimalValue_mono {digits other : Nat} (exponent : Int) (order : digits ≤ other) :
    decimalValue digits exponent ≤ decimalValue other exponent :=
  mul_le_mul_of_nonneg_right (Nat.cast_le.mpr order) (zpow_nonneg (by norm_num) _)

/-- A decimal with few digits is a multiple of the unit of a grid, or so small that it is
below those multiples which have as many digits. -/
theorem exists_on_grid {digits kept : Nat} (few : digits < 10 ^ (kept + 1)) (exponent grid : Int) :
    (∃ count, decimalValue digits exponent = decimalValue count grid) ∨
      decimalValue digits exponent ≤ decimalValue (10 ^ kept) grid := by
  by_cases fine : grid ≤ exponent
  · refine .inl ⟨digits * 10 ^ (exponent - grid).toNat, ?_⟩
    rw [decimalValue_mul_ten_pow]
    congr 1
    omega
  · refine .inr ?_
    have power := decimalValue_mul_ten_pow 1 exponent (kept + 1)
    have power' := decimalValue_mul_ten_pow 1 grid kept
    rw [Nat.one_mul] at power power'
    calc decimalValue digits exponent ≤ decimalValue (10 ^ (kept + 1)) exponent :=
          decimalValue_mono exponent few.le
      _ = decimalValue 1 (exponent + (kept + 1 : Nat)) := power
      _ ≤ decimalValue 1 (grid + kept) := by
          rw [decimalValue, decimalValue]
          have order : exponent + (kept + 1 : Nat) ≤ grid + kept := by omega
          have base : (1 : ℚ) ≤ 10 := by norm_num
          gcongr
      _ = decimalValue (10 ^ kept) grid := power'.symm

namespace Magnitude

/-! ## No decimal is shorter -/

variable {m : Magnitude} {dropped kept : Nat}

theorem readsBack_iff {digits : Nat} :
    m.readsBack dropped digits = true ↔ ofDecimal? digits (dropped - 1074) = some m :=
  decide_eq_true_iff

theorem pow_le_of_length_toDigits {size width : Nat} (some' : size ≠ 0)
    (long : width < (Nat.toDigits 10 size).length) : 10 ^ width ≤ size := by
  by_cases single : width = 0
  · rw [single]
    exact Nat.pos_of_ne_zero some'
  · by_contra few
    have short := (Nat.length_toDigits_le_iff (by decide) (Nat.pos_of_ne_zero single)).mpr
      (Nat.not_le.mp few)
    omega

theorem decimalValue_dropped (digits dropped : Nat) :
    decimalValue (digits * 10 ^ dropped) (-1074) = decimalValue digits (dropped - 1074) := by
  refine (decimalValue_mul_ten_pow digits (-1074) dropped).trans ?_
  rw [add_comm, sub_eq_add_neg]

theorem decimalValue_low_le (m : Magnitude) (dropped : Nat) :
    decimalValue (m.exact / 10 ^ dropped) (dropped - 1074) ≤ decimalValue m.exact (-1074) := by
  rw [← decimalValue_dropped]
  exact decimalValue_mono _ (Nat.div_mul_le_self ..)

theorem le_decimalValue_high (m : Magnitude) (dropped : Nat) :
    decimalValue m.exact (-1074) ≤
      decimalValue (m.exact / 10 ^ dropped + 1) (dropped - 1074) := by
  rw [← decimalValue_dropped]
  refine decimalValue_mono _ ?_
  rw [Nat.mul_comm]
  exact (Nat.lt_mul_div_succ m.exact (Nat.pow_pos (by decide))).le

/-- If any decimal of so many digits reads back, one next to the exact value does. -/
theorem readsBack_of_ofDecimal? {digits : Nat} {exponent : Int}
    (size : (Nat.toDigits 10 m.exact).length = kept + 1 + dropped)
    (few : digits < 10 ^ (kept + 1)) (reads : ofDecimal? digits exponent = some m) :
    m.readsBack dropped (m.exact / 10 ^ dropped) = true ∨
      m.readsBack dropped (m.exact / 10 ^ dropped + 1) = true := by
  rw [readsBack_iff, readsBack_iff]
  have below := decimalValue_low_le m dropped
  have above := le_decimalValue_high m dropped
  -- On the grid the decimal is on one side of the exact value or on the other, and a
  -- neighbour lies between them; off the grid it is below every number of as many digits.
  rcases exists_on_grid few exponent (dropped - 1074) with ⟨count, value⟩ | small
  · by_cases low : count ≤ m.exact / 10 ^ dropped
    · refine .inl (ofDecimal?_between ?_ below reads m.ofDecimal?_exact)
      exact value.trans_le (decimalValue_mono _ low)
    · refine .inr (ofDecimal?_between above ?_ m.ofDecimal?_exact reads)
      exact (decimalValue_mono _ (Nat.not_le.mp low)).trans_eq value.symm
  · refine .inl ?_
    by_cases zero : m.exact = 0
    · have none := m.ofDecimal?_exact
      rw [zero] at none ⊢
      rw [← none, Nat.zero_div]
      exact ofDecimal?_congr (by rw [decimalValue, decimalValue, Nat.cast_zero, zero_mul, zero_mul])
    · refine ofDecimal?_between (small.trans (decimalValue_mono _ ?_)) below reads
        m.ofDecimal?_exact
      rw [Nat.le_div_iff_mul_le (Nat.pow_pos (by decide)), ← Nat.pow_add]
      exact pow_le_of_length_toDigits zero (by omega)

theorem isSome_rounding? (either : m.readsBack dropped (m.exact / 10 ^ dropped) = true ∨
    m.readsBack dropped (m.exact / 10 ^ dropped + 1) = true) :
    (m.rounding? dropped).isSome = true := by
  rw [rounding?, Option.isSome_map]
  split
  · split <;> rfl
  · rfl
  · rfl
  · rename_i low high
    exact absurd (either.imp low.symm.trans high.symm.trans) (by decide)

theorem length_rounding?_le {d : Decimal} (found : m.rounding? dropped = some d)
    (few : m.exact < 10 ^ (kept + 1 + dropped)) : d.chars.length ≤ kept + 1 := by
  obtain ⟨digits, next, -, rfl⟩ := exists_of_rounding? found
  have bound : m.exact / 10 ^ dropped < 10 ^ (kept + 1) := by
    rwa [Nat.div_lt_iff_lt_mul (Nat.pow_pos (by decide)), ← Nat.pow_add]
  refine Decimal.length_chars_trim_le _ (Nat.succ_pos kept) ?_
  obtain rfl | rfl := next
  · exact bound.le
  · exact bound

theorem length_shortest_le_of_rounding?
    (size : (Nat.toDigits 10 m.exact).length = kept + 1 + dropped)
    (found : (m.rounding? dropped).isSome = true) : m.shortest.chars.length ≤ kept + 1 := by
  have few : m.exact < 10 ^ (kept + 1 + dropped) :=
    (Nat.length_toDigits_le_iff (by decide) (by omega)).mp size.le
  have early : ((List.range (kept + 1)).findSome? fun fewer =>
      m.rounding? (kept + 1 + dropped - 1 - fewer)).isSome = true := by
    rw [List.isSome_findSome?, List.any_eq_true]
    refine ⟨kept, List.mem_range.mpr (Nat.lt_succ_self kept), ?_⟩
    rwa [show kept + 1 + dropped - 1 - kept = dropped by omega]
  obtain ⟨d, first⟩ := Option.isSome_iff_exists.mp early
  obtain ⟨fewer, listed, rounded⟩ := List.exists_of_findSome?_eq_some first
  have shorter : fewer < kept + 1 := List.mem_range.mp listed
  have answer : m.shortest = d := by
    rw [shortest, size, List.range_add, List.findSome?_append, first, Option.some_or,
      Option.getD_some]
  rw [show kept + 1 + dropped = fewer + 1 + (kept + 1 + dropped - 1 - fewer) by omega] at few
  rw [answer]
  exact Nat.le_trans (length_rounding?_le rounded few) shorter

theorem exists_length_toDigits (size : Nat) : ∃ width, (Nat.toDigits 10 size).length = width + 1 :=
  Nat.exists_eq_succ_of_ne_zero (List.length_pos_iff.mpr Nat.toDigits_ne_nil).ne'

/-- No decimal that reads back has fewer digits than the shortest one. -/
theorem length_shortest_le {digits : Nat} {exponent : Int}
    (reads : ofDecimal? digits exponent = some m) :
    m.shortest.chars.length ≤ (Nat.toDigits 10 digits).length := by
  obtain ⟨width, whole⟩ := exists_length_toDigits m.exact
  have bounded : ∀ {others kept : Nat} {power : Int}, kept ≤ width →
      (Nat.toDigits 10 others).length = kept + 1 → ofDecimal? others power = some m →
      m.shortest.chars.length ≤ kept + 1 := by
    intro others kept power inside length reads
    have size : (Nat.toDigits 10 m.exact).length = kept + 1 + (width - kept) := by omega
    have few := (Nat.length_toDigits_le_iff (by decide) (Nat.succ_pos kept)).mp length.le
    exact length_shortest_le_of_rounding? size
      (isSome_rounding? (readsBack_of_ofDecimal? size few reads))
  obtain ⟨kept, length⟩ := exists_length_toDigits digits
  rw [length]
  by_cases inside : kept ≤ width
  · exact bounded inside length reads
  · -- The exact value itself is shorter.
    exact Nat.le_trans (bounded (Nat.le_refl width) whole m.ofDecimal?_exact) (by omega)

theorem findSome?_range_succ {α : Type} {f : Nat → Option α} {found : α}
    (first : f 0 = some found) (count : Nat) :
    (List.range (count + 1)).findSome? f = some found := by
  rw [List.range_succ_eq_map, List.findSome?_cons, first]

theorem shortest_of_rounding? {d : Decimal}
    (size : (Nat.toDigits 10 m.exact).length = dropped + 1)
    (first : m.rounding? dropped = some d) : m.shortest = d := by
  have found := @findSome?_range_succ _ (fun kept => m.rounding? (dropped - kept)) d first dropped
  rw [shortest, size, Nat.add_sub_cancel, found, Option.getD_some]

theorem rounding?_of_high {low : Nat} (quotient : m.exact / Nat.pow 10 dropped = low)
    (fails : m.readsBack dropped low = false) (reads : m.readsBack dropped (low + 1) = true) :
    m.rounding? dropped = some (Decimal.trim (low + 1) (dropped - 1074)) := by
  subst quotient
  simp only [rounding?, fails, reads, Option.map_some]

theorem rounding?_of_exact {digits : Nat} (whole : m.exact = digits * Nat.pow 10 dropped) :
    m.rounding? dropped = some (Decimal.trim digits (dropped - 1074)) := by
  have reads : m.readsBack dropped digits = true := by
    rw [readsBack_iff, ← m.ofDecimal?_exact, whole]
    exact (ofDecimal?_congr (decimalValue_dropped digits dropped)).symm
  have positive : 0 < Nat.pow 10 dropped := Nat.pow_pos (by decide)
  simp only [rounding?, whole, Nat.mul_div_cancel _ positive, Nat.mul_mod_left, reads, Nat.mul_zero,
    positive, true_or, if_true]
  cases m.readsBack dropped (digits + 1) <;> rfl

theorem shortest_zero : zero.shortest = ⟨0, 0⟩ := by
  have rounded : zero.rounding? 0 = some _ := @rounding?_of_exact _ 0 0 (by decide +kernel)
  rw [shortest_of_rounding? (by decide +kernel) rounded, Decimal.trim, if_pos rfl]

def written (m : Magnitude) : ℚ := decimalValue m.shortest.digits m.shortest.exponent

theorem written_inj {m n : Magnitude} : m.written = n.written ↔ m = n := by
  refine ⟨fun same => ?_, congrArg written⟩
  have read := ofDecimal?_congr same
  rw [m.ofDecimal?_shortest, n.ofDecimal?_shortest] at read
  exact Option.some.inj read

theorem written_le_iff {m n : Magnitude} : m.written ≤ n.written ↔ m.value ≤ n.value := by
  have mono : ∀ {m n : Magnitude}, m.written ≤ n.written → m.value ≤ n.value := by
    intro m n order
    rw [← not_lt, value_lt_iff, not_lt]
    exact ofDecimal?_mono order m.ofDecimal?_shortest n.ofDecimal?_shortest
  refine ⟨mono, fun order => ?_⟩
  by_contra above
  have equal : m = n := value_inj.mp (order.antisymm (mono (not_le.mp above).le))
  exact above (equal ▸ le_rfl)

theorem written_nonneg (m : Magnitude) : 0 ≤ m.written :=
  mul_nonneg (Nat.cast_nonneg _) (zpow_nonneg (by norm_num) _)

theorem written_eq_zero_iff {m : Magnitude} : m.written = 0 ↔ m.shortest.digits = 0 := by
  rw [written, decimalValue, mul_eq_zero, Nat.cast_eq_zero,
    or_iff_left (zpow_ne_zero _ (by norm_num))]

theorem eq_zero_of_digits_shortest (none : m.shortest.digits = 0) : m = zero := by
  have read := m.ofDecimal?_shortest
  rw [none, ofDecimal?, if_pos (.inl rfl)] at read
  exact (Option.some.inj read).symm

end Magnitude

end PathQuery
