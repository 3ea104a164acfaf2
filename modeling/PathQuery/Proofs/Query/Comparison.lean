import Mathlib.Data.Sum.Order
import Mathlib.Data.List.Lex
import Mathlib.Data.String.Basic
import PathQuery.Proofs.Number.Value
import PathQuery.Query.Operator

/-!
# Coherent comparisons

Numbers are ranked by what they stand for and strings by their code points, the
two apart from each other; nothing else has a rank (`Json.rank?`).  One value is
less than another exactly if its rank is (`Json.less_iff`), and ranked values are
equal exactly if their ranks are (`Json.equal_iff_of_rank?`).  So the operators
put the numbers without NaN in a total order, and the strings, and nothing else
(`comparisons_coherent`).
-/

set_option autoImplicit false

namespace PathQuery

def codePoints (text : String) : List ℕ := text.toList.map Char.toNat

theorem codePoints_lt_iff {s t : String} : codePoints s < codePoints t ↔ s < t := by
  have mono : StrictMono (List.map Char.toNat) := fun _ _ less => List.map_lt (fun _ _ h => h) less
  rw [String.lt_iff_toList_lt]
  exact mono.lt_iff_lt

theorem codePoints_inj {s t : String} : codePoints s = codePoints t ↔ s = t := by
  have injective : Function.Injective Char.toNat :=
    fun _ _ same => Char.ext (UInt32.toNat_inj.mp same)
  rw [codePoints, codePoints, injective.list_map.eq_iff, String.toList_inj]

/-- Numbers and strings have places of their own, which are not compared with each other. -/
abbrev Rank := ExtendedRat ⊕ List ℕ

namespace Json

def rank? : Json → Option Rank
  | .num value => value.value?.map .inl
  | .str text => some (.inr (codePoints text))
  | _ => none

variable {a b c : Json} {x y : Rank}

theorem less_iff : a.less b = true ↔ ∃ x y, a.rank? = some x ∧ b.rank? = some y ∧ x < y := by
  cases a <;> cases b <;>
    simp [less, rank?, Number.less_iff, codePoints_lt_iff]

theorem less_iff_of_rank? (left : a.rank? = some x) (right : b.rank? = some y) :
    a.less b = true ↔ x < y := by
  simp [less_iff, left, right]

/-- What is unranked equals nothing but itself, and a container not even that. -/
theorem equal_iff : a.equal b = true ↔
    (∃ x, a.rank? = some x ∧ b.rank? = some x) ∨
      a = b ∧ (a.kind = .null ∨ a.kind = .boolean) := by
  cases a with
  | null => cases b <;> simp [equal, rank?, kind]
  | bool _ => cases b <;> simp [equal, rank?, kind]
  | arr _ => simp [equal, rank?, kind]
  | obj _ => simp [equal, rank?, kind]
  | num m => cases b <;> simp [equal, rank?, kind, Number.equal_iff, ← exists_and_right]
  | str s => cases b <;> simp [equal, rank?, kind, codePoints_inj, @eq_comm _ s]

theorem equal_iff_of_rank? (left : a.rank? = some x) (right : b.rank? = some y) :
    a.equal b = true ↔ x = y := by
  rw [equal_iff]
  constructor
  · rintro (⟨z, first, second⟩ | ⟨rfl, -⟩)
    · rw [Option.some.inj (left.symm.trans first), Option.some.inj (right.symm.trans second)]
    · exact Option.some.inj (left.symm.trans right)
  · rintro rfl
    exact .inl ⟨x, left, right⟩

theorem rank?_eq_of_equal (same : a.equal b = true) : a.rank? = b.rank? := by
  rw [equal_iff] at same
  obtain ⟨x, first, second⟩ | ⟨rfl, -⟩ := same
  · rw [first, second]
  · rfl

theorem kind_eq_of_equal (same : a.equal b = true) : a.kind = b.kind := by
  cases a <;> cases b <;> first | rfl | cases same

theorem equal_trans (first : a.equal b = true) (second : b.equal c = true) : a.equal c = true := by
  obtain ⟨x, ranked, -⟩ | ⟨rfl, -⟩ := equal_iff.mp first
  · have onward := rank?_eq_of_equal first ▸ rank?_eq_of_equal second
    exact equal_iff.mpr (.inl ⟨x, ranked, onward ▸ ranked⟩)
  · exact second

theorem less_trans (first : a.less b = true) (second : b.less c = true) : a.less c = true := by
  obtain ⟨x, y, left, middle, below⟩ := less_iff.mp first
  obtain ⟨y', z, middle', right, above⟩ := less_iff.mp second
  obtain rfl := Option.some.inj (middle.symm.trans middle')
  exact less_iff.mpr ⟨x, z, left, right, below.trans above⟩

inductive Comparable : Json → Json → Prop
  | numbers {m n : Number} : m ≠ .float .nan → n ≠ .float .nan → Comparable (.num m) (.num n)
  | strings {s t : String} : Comparable (.str s) (.str t)

theorem Comparable.ordered (comparable : Comparable a b) : a.ordered b = true := by
  cases comparable <;> rfl

theorem Comparable.rank? (comparable : Comparable a b) :
    ∃ x y, a.rank? = some x ∧ b.rank? = some y ∧ (x < y ∨ x = y ∨ y < x) := by
  cases comparable with
  | @numbers m n left right =>
    obtain ⟨x, first⟩ := Option.ne_none_iff_exists'.mp (mt Number.value?_eq_none_iff.mp left)
    obtain ⟨y, second⟩ := Option.ne_none_iff_exists'.mp (mt Number.value?_eq_none_iff.mp right)
    refine ⟨.inl x, .inl y, by rw [Json.rank?, first]; rfl, by rw [Json.rank?, second]; rfl, ?_⟩
    simpa only [Sum.inl_lt_inl_iff, Sum.inl.injEq] using lt_trichotomy x y
  | @strings s t =>
    refine ⟨.inr (codePoints s), .inr (codePoints t), rfl, rfl, ?_⟩
    simpa only [Sum.inr_lt_inr_iff, Sum.inr.injEq] using lt_trichotomy (codePoints s) (codePoints t)

theorem ordered_iff : a.ordered b = true ↔
    a.kind = b.kind ∧ (a.kind = .number ∨ a.kind = .string) := by
  cases a <;> cases b <;> simp [ordered, kind]

theorem ordered_comm : a.ordered b = b.ordered a := by
  cases a <;> cases b <;> rfl

theorem ordered_of_less (below : a.less b = true) : a.ordered b = true := by
  cases a <;> cases b <;> first | rfl | cases below

@[simp]
theorem rank?_nan : (num (.float .nan)).rank? = none := rfl

theorem nan_less (b : Json) : (num (.float .nan)).less b = false := by
  simp [Bool.eq_false_iff, less_iff]

theorem less_nan (a : Json) : a.less (num (.float .nan)) = false := by
  simp [Bool.eq_false_iff, less_iff]

theorem nan_equal (b : Json) : (num (.float .nan)).equal b = false := by
  simp [Bool.eq_false_iff, equal_iff, kind]

theorem equal_nan (a : Json) : a.equal (num (.float .nan)) = false := by
  rw [Bool.eq_false_iff, ne_eq, equal_iff]
  rintro (⟨x, -, right⟩ | ⟨rfl, plain⟩)
  · cases right
  · simp [kind] at plain

theorem not_equal_container (container : a.isContainer = true) : a.equal b = false := by
  cases a <;> first | rfl | cases container

end Json

/-! ## The operators -/

def ExactlyOne (p q r : Prop) : Prop := (p ∨ q ∨ r) ∧ ¬(p ∧ q) ∧ ¬(q ∧ r) ∧ ¬(p ∧ r)

namespace Operator

open Json (Comparable)

variable {a b : Json}

def orderings : List Operator := [.less, .greater, .atMost, .atLeast]

theorem exactlyOne_of_comparable (comparable : Comparable a b) :
    ExactlyOne (less.holds a b = true) (equal.holds a b = true) (greater.holds a b = true) := by
  obtain ⟨x, y, left, right, either⟩ := comparable.rank?
  have below : less.holds a b = true ↔ x < y := Json.less_iff_of_rank? left right
  have same : equal.holds a b = true ↔ x = y := Json.equal_iff_of_rank? left right
  have above : greater.holds a b = true ↔ y < x := Json.less_iff_of_rank? right left
  rw [below, same, above]
  exact ⟨either, fun h => h.1.ne h.2, fun h => h.2.ne' h.1, fun h => h.1.asymm h.2⟩

theorem holds_nan {op : Operator} (compares : op ∈ .equal :: .notEqual :: orderings)
    (nan : a = .num (.float .nan) ∨ b = .num (.float .nan)) :
    op.holds a b = true ↔ op = .notEqual := by
  obtain rfl | rfl := nan <;> cases op <;>
    simp_all [orderings, holds, Json.nan_less, Json.less_nan, Json.nan_equal, Json.equal_nan]

theorem holds_unordered {op : Operator} (ordering : op ∈ orderings)
    (unordered : a.ordered b = false) : op.holds a b = false := by
  have below : a.less b = false := by
    rw [Bool.eq_false_iff] at unordered ⊢
    exact mt Json.ordered_of_less unordered
  have above : b.less a = false := by
    rw [Json.ordered_comm, Bool.eq_false_iff] at unordered
    exact Bool.eq_false_iff.mpr (mt Json.ordered_of_less unordered)
  cases op <;> simp_all [orderings, holds]

/-- The laws of a total order on what is comparable; the rest has no order, and
equality keeps kinds apart. -/
structure Coherent (a b c : Json) : Prop where
  exactlyOne : Comparable a b →
    ExactlyOne (less.holds a b = true) (equal.holds a b = true) (greater.holds a b = true)
  atMost_iff : Comparable a b →
    (atMost.holds a b = true ↔ less.holds a b = true ∨ equal.holds a b = true)
  atLeast_iff : Comparable a b →
    (atLeast.holds a b = true ↔ greater.holds a b = true ∨ equal.holds a b = true)
  notEqual_eq : notEqual.holds a b = !equal.holds a b
  less_trans : less.holds a b = true → less.holds b c = true → less.holds a c = true
  equal_trans : equal.holds a b = true → equal.holds b c = true → equal.holds a c = true
  less_of_less_of_equal : less.holds a b = true → equal.holds b c = true → less.holds a c = true
  less_of_equal_of_less : equal.holds a b = true → less.holds b c = true → less.holds a c = true
  less_exact : less.holds a b = true ↔ ∃ x y, a.rank? = some x ∧ b.rank? = some y ∧ x < y
  equal_exact : Comparable a b → (equal.holds a b = true ↔ a.rank? = b.rank?)
  nan : a = .num (.float .nan) ∨ b = .num (.float .nan) →
    ∀ op ∈ .equal :: .notEqual :: orderings, op.holds a b = true ↔ op = .notEqual
  unordered : a.kind ≠ b.kind ∨ a.kind ≠ .number ∧ a.kind ≠ .string →
    ∀ op ∈ orderings, op.holds a b = false
  equal_kind : a.kind ≠ b.kind → equal.holds a b = false
  equal_container : a.isContainer = true → equal.holds a b = false

theorem comparisons_coherent (a b c : Json) : Coherent a b c where
  exactlyOne := exactlyOne_of_comparable
  atMost_iff comparable := by simp [holds, comparable.ordered]
  atLeast_iff comparable := by simp [holds, comparable.ordered]
  notEqual_eq := rfl
  less_trans := Json.less_trans
  equal_trans := Json.equal_trans
  less_of_less_of_equal first second := by
    have same := Json.rank?_eq_of_equal second
    exact Json.less_iff.mpr (same ▸ Json.less_iff.mp first)
  less_of_equal_of_less first second := by
    have same := Json.rank?_eq_of_equal first
    exact Json.less_iff.mpr (same ▸ Json.less_iff.mp second)
  less_exact := Json.less_iff
  equal_exact comparable := by
    obtain ⟨x, y, left, right, -⟩ := comparable.rank?
    rw [left, right, Option.some.injEq]
    exact Json.equal_iff_of_rank? left right
  nan either _ compares := holds_nan compares either
  unordered apart _ ordering := by
    refine holds_unordered ordering (Bool.eq_false_iff.mpr fun ordered => ?_)
    obtain ⟨same, sort⟩ := Json.ordered_iff.mp ordered
    obtain differ | ⟨number, string⟩ := apart
    · exact differ same
    · exact sort.elim number string
  equal_kind differ := Bool.eq_false_iff.mpr fun same => differ (Json.kind_eq_of_equal same)
  equal_container := Json.not_equal_container

/-- Between 2^53 and the next binary64 number stands a whole number that equals neither. -/
theorem comparisons_coherent_beyond_width :
    let low : Magnitude := ⟨fullWidth, 1075, by decide, by decide, .inr (by decide)⟩
    let high : Magnitude := ⟨fullWidth + 1, 1075, by decide, by decide, .inr (by decide)⟩
    let odd : Json := .num (.int (2 ^ 53 + 1))
    less.holds (.num (.float (.finite false low))) odd = true ∧
      less.holds odd (.num (.float (.finite false high))) = true ∧
      less.holds (.num (.float (.finite false low))) (.num (.float (.finite false high))) = true ∧
      equal.holds (.num (.float (.finite true .zero)))
        (.num (.float (.finite false .zero))) = true ∧
      ExactlyOne (less.holds (.str "\uFFFD") (.str "😀") = true)
        (equal.holds (.str "\uFFFD") (.str "😀") = true)
        (greater.holds (.str "\uFFFD") (.str "😀") = true) ∧
      notEqual.holds (.num (.float .nan)) odd = true ∧
      atMost.holds (.bool true) (.num (.int 1)) = false ∧
      equal.holds (.bool true) (.num (.int 1)) = false ∧
      equal.holds (.arr []) (.arr []) = false := by
  intro low high odd
  have first : less.holds (.num (.float (.finite false low))) odd = true := by decide +kernel
  have second : less.holds odd (.num (.float (.finite false high))) = true := by decide +kernel
  refine ⟨first, second, (comparisons_coherent _ odd _).less_trans first second,
    (comparisons_coherent _ (.num (.int 0)) _).equal_trans (by decide +kernel) (by decide +kernel),
    (comparisons_coherent _ _ .null).exactlyOne .strings,
    ((comparisons_coherent _ _ .null).nan (.inl rfl) .notEqual (by decide)).mpr rfl,
    (comparisons_coherent _ _ .null).unordered (.inl (by decide)) .atMost (by decide),
    (comparisons_coherent _ _ .null).equal_kind (by decide),
    (comparisons_coherent _ _ .null).equal_container rfl⟩

end Operator

end PathQuery
