import Mathlib.Data.List.Basic
import PathQuery.Json.Printer
import PathQuery.Json.Token

/-!
# Strings read back

A character of a string is written so that the lexer collects code units which
join to that character again, whatever units follow (`Spell`).  Escaping slashes
in the finished text goes character by character too, and changes only how a
slash itself is written, for no other spelling has one.
-/

set_option autoImplicit false

namespace PathQuery.Json

open Token

namespace Escape

/-- Code units that join to a character, whatever comes behind them. -/
def Spell (codes : List Nat) (c : Char) : Prop :=
  ∀ rest, joinUnits (codes ++ rest) = c :: joinUnits rest

theorem not_half (c : Char) : isHighHalf c.toNat = false ∧ isLowHalf c.toNat = false := by
  have scalar : c.toNat < 0xD800 ∨ 0xDFFF < c.toNat ∧ c.toNat < 0x110000 := c.valid
  simp only [isHighHalf, isLowHalf, Bool.and_eq_false_iff, decide_eq_false_iff_not]
  omega

theorem spell_toNat (c : Char) : Spell [c.toNat] c := by
  obtain ⟨high, low⟩ := not_half c
  have same : ofUnit c.toNat = c := by
    rw [ofUnit, high, low]
    exact Char.ofNat_toNat c
  intro rest
  cases rest with
  | nil => simp [joinUnits, same]
  | cons next rest =>
    rw [List.singleton_append, joinUnits, high, Bool.false_and, if_neg (by decide), same]

theorem spell_units (c : Char) : Spell (units c) c := by
  have scalar : c.toNat < 0xD800 ∨ 0xDFFF < c.toNat ∧ c.toNat < 0x110000 := c.valid
  rw [units]
  split
  · exact spell_toNat c
  · have high : isHighHalf (0xD800 + (c.toNat - 0x10000) / 0x400) = true := by
      simp only [isHighHalf, Bool.and_eq_true, decide_eq_true_eq]
      omega
    have low : isLowHalf (0xDC00 + (c.toNat - 0x10000) % 0x400) = true := by
      simp only [isLowHalf, Bool.and_eq_true, decide_eq_true_eq]
      omega
    have whole : ofHalves (0xD800 + (c.toNat - 0x10000) / 0x400)
        (0xDC00 + (c.toNat - 0x10000) % 0x400) = c := by
      have code : 0x10000 + (0xD800 + (c.toNat - 0x10000) / 0x400 - 0xD800) * 0x400 +
          (0xDC00 + (c.toNat - 0x10000) % 0x400 - 0xDC00) = c.toNat := by omega
      rw [ofHalves, code, Char.ofNat_toNat]
    intro rest
    rw [List.cons_append, List.singleton_append, joinUnits, high, low, Bool.and_true, if_pos rfl,
      whole]

theorem units_lt {c : Char} {unit : Nat} (listed : unit ∈ units c) : unit < 0x10000 := by
  have scalar : c.toNat < 0xD800 ∨ 0xDFFF < c.toNat ∧ c.toNat < 0x110000 := c.valid
  rw [units] at listed
  split at listed
  · rw [List.mem_singleton] at listed
    omega
  · simp only [List.mem_cons, List.not_mem_nil, or_false] at listed
    omega

theorem hexValue?_digitChar {digit : Nat} (small : digit < 16) :
    hexValue? (Nat.digitChar digit) = some digit := by
  have all : ∀ digit : Fin 16, hexValue? (Nat.digitChar digit) = some digit.val := by decide
  exact all ⟨digit, small⟩

end Escape

def slashText (escape : Bool) (c : Char) : List Char :=
  if escape && c = '/' then ['\\', '/'] else [c]

theorem flatMap_slashText {text : List Char} (absent : '/' ∉ text) (escape : Bool) :
    text.flatMap (slashText escape) = text := by
  have single : ∀ c ∈ text, slashText escape c = [c] := by
    intro c listed
    have other : c ≠ '/' := fun same => absent (same ▸ listed)
    simp [slashText, other]
  rw [List.flatMap_congr single]
  exact List.flatMap_singleton' text

open Escape

section Scan

variable {tokens : List Token}

theorem longEscape_eq (unit : Nat) :
    longEscape unit = ['\\', 'u', Nat.digitChar (unit / 16 / 16 / 16 % 16),
      Nat.digitChar (unit / 16 / 16 % 16), Nat.digitChar (unit / 16 % 16),
      Nat.digitChar (unit % 16)] := rfl

theorem foldlM_longEscape {unit : Nat} (small : unit < 0x10000) (codes : List Nat) :
    (longEscape unit).foldlM Lexer.step ⟨tokens, .string codes⟩ =
      some ⟨tokens, .string (unit :: codes)⟩ := by
  have whole : (((unit / 16 / 16 / 16 % 16) * 16 + unit / 16 / 16 % 16) * 16 +
      unit / 16 % 16) * 16 + unit % 16 = unit := by omega
  have digit : ∀ place : Nat, hexValue? (Nat.digitChar (place % 16)) = some (place % 16) :=
    fun place => hexValue?_digitChar (Nat.mod_lt _ (by decide))
  simp [longEscape_eq, Lexer.step, digit, whole]

theorem foldlM_flatMap_longEscape (units : List Nat) (small : ∀ unit ∈ units, unit < 0x10000) :
    ∀ codes : List Nat, (units.flatMap longEscape).foldlM Lexer.step ⟨tokens, .string codes⟩ =
      some ⟨tokens, .string (units.reverse ++ codes)⟩ := by
  induction units with
  | nil => intro codes; rfl
  | cons unit rest ih =>
    intro codes
    rw [List.flatMap_cons, List.foldlM_append, foldlM_longEscape (small unit (by simp))]
    change (rest.flatMap longEscape).foldlM Lexer.step _ = _
    rw [ih fun other listed => small other (List.mem_cons_of_mem _ listed), List.reverse_cons,
      List.append_assoc]
    rfl

theorem foldlM_shortEscape {letter : Char} {unit : Nat} (other : letter ≠ 'u')
    (known : ofShortLetter? letter = some unit) (codes : List Nat) :
    ['\\', letter].foldlM Lexer.step ⟨tokens, .string codes⟩ =
      some ⟨tokens, .string (unit :: codes)⟩ := by
  simp [Lexer.step, other, known]

theorem ofShortLetter?_of_shortLetter? {c letter : Char} (short : shortLetter? c = some letter) :
    letter ≠ 'u' ∧ letter ≠ '/' ∧ ofShortLetter? letter = some c.toNat := by
  have special : c = '"' ∨ c = '\\' ∨ c = '\n' ∨ c = '\r' ∨ c = '\t' ∨ c = '\x08' ∨ c = '\x0c' := by
    by_contra other
    simp only [not_or] at other
    simp [shortLetter?, other] at short
  rcases special with rfl | rfl | rfl | rfl | rfl | rfl | rfl <;> cases short <;> decide

theorem foldlM_plain {c : Char} (large : 0x20 ≤ c.toNat) (quote : c ≠ '"') (backslash : c ≠ '\\')
    (escape : Bool) (codes : List Nat) :
    (slashText escape c).foldlM Lexer.step ⟨tokens, .string codes⟩ =
      some ⟨tokens, .string (c.toNat :: codes)⟩ := by
  unfold slashText
  split
  · rename_i slash
    rw [Bool.and_eq_true, decide_eq_true_eq] at slash
    rw [slash.2]
    exact foldlM_shortEscape (by decide) rfl codes
  · have printed : ¬ c.toNat < 0x20 := Nat.not_lt.mpr large
    simp [Lexer.step, quote, backslash, printed]

theorem ne_of_mem_longEscape {unit : Nat} {c : Char} (listed : c ∈ longEscape unit) :
    c ≠ '/' ∧ c ≠ '\n' := by
  have small : ∀ place : Fin 16,
      Nat.digitChar place.val ≠ '/' ∧ Nat.digitChar place.val ≠ '\n' := by decide
  have digit : ∀ place : Nat,
      Nat.digitChar (place % 16) ≠ '/' ∧ Nat.digitChar (place % 16) ≠ '\n' :=
    fun place => small ⟨place % 16, Nat.mod_lt _ (by decide)⟩
  simp only [longEscape_eq, List.mem_cons, List.not_mem_nil, or_false] at listed
  rcases listed with rfl | rfl | rfl | rfl | rfl | rfl
  · decide
  · decide
  all_goals exact digit _

theorem exists_spell_of_charText (ascii escape : Bool) (c : Char) :
    ∃ codes, Spell codes c ∧ ∀ before : List Nat,
      ((charText ascii c).flatMap (slashText escape)).foldlM Lexer.step ⟨tokens, .string before⟩ =
        some ⟨tokens, .string (codes.reverse ++ before)⟩ := by
  unfold charText
  split
  · rename_i letter short
    obtain ⟨other, slash, known⟩ := ofShortLetter?_of_shortLetter? short
    refine ⟨[c.toNat], spell_toNat c, fun before => ?_⟩
    have absent : '/' ∉ ['\\', letter] := by simp [Ne.symm slash]
    rw [flatMap_slashText absent, foldlM_shortEscape other known]
    rfl
  · rename_i plain
    split
    · refine ⟨units c, spell_units c, fun before => ?_⟩
      have absent : '/' ∉ (units c).flatMap longEscape := by
        rw [List.mem_flatMap]
        rintro ⟨unit, -, listed⟩
        exact (ne_of_mem_longEscape listed).1 rfl
      rw [flatMap_slashText absent, foldlM_flatMap_longEscape _ fun unit => units_lt]
    · rename_i printed
      rw [Bool.or_eq_true, not_or, decide_eq_true_eq] at printed
      have quote : c ≠ '"' := by rintro rfl; cases plain
      have backslash : c ≠ '\\' := by rintro rfl; cases plain
      refine ⟨[c.toNat], spell_toNat c, fun before => ?_⟩
      rw [List.flatMap_singleton, foldlM_plain (Nat.not_lt.mp printed.1) quote backslash]
      rfl

theorem exists_codes_of_chars (ascii escape : Bool) (text : List Char) :
    ∃ codes, (∀ rest, joinUnits (codes ++ rest) = text ++ joinUnits rest) ∧
      ∀ before : List Nat, ((text.flatMap (charText ascii)).flatMap (slashText escape)).foldlM
        Lexer.step ⟨tokens, .string before⟩ = some ⟨tokens, .string (codes.reverse ++ before)⟩ := by
  induction text with
  | nil => exact ⟨[], fun _ => rfl, fun _ => rfl⟩
  | cons c text ih =>
    obtain ⟨first, spells, reads⟩ := exists_spell_of_charText ascii escape c
    obtain ⟨codes, joins, reads'⟩ := ih
    refine ⟨first ++ codes, fun rest => ?_, fun before => ?_⟩
    · rw [List.append_assoc, spells, joins, List.cons_append]
    · rw [List.flatMap_cons, List.flatMap_append, List.foldlM_append, reads]
      change List.foldlM Lexer.step _ _ = _
      rw [reads', List.reverse_append, List.append_assoc]

theorem foldlM_stringText (ascii escape : Bool) (value : String) :
    ((stringText ascii value).flatMap (slashText escape)).foldlM Lexer.step ⟨tokens, .between⟩ =
      some ⟨.text value :: tokens, .between⟩ := by
  obtain ⟨codes, joins, reads⟩ :=
    exists_codes_of_chars ascii escape value.toList
  have closing : ['"'].flatMap (slashText escape) = ['"'] := flatMap_slashText (by decide) escape
  have opening : slashText escape '"' = ['"'] := by simp [slashText]
  have whole : String.ofList (joinUnits codes) = value := by
    have joined := joins []
    rw [List.append_nil] at joined
    rw [joined, joinUnits, List.append_nil, String.ofList_toList]
  rw [stringText, List.flatMap_append, List.flatMap_cons, opening, closing, List.singleton_append,
    List.cons_append, List.foldlM_cons]
  change List.foldlM Lexer.step ⟨tokens, .string []⟩ _ = _
  rw [List.foldlM_append, reads, List.append_nil]
  change some (Lexer.mk (.text (String.ofList (joinUnits codes.reverse.reverse)) :: tokens) _) = _
  rw [List.reverse_reverse, whole]

end Scan

theorem newline_notMem_charText (ascii : Bool) (c : Char) : '\n' ∉ charText ascii c := by
  unfold charText
  split
  · rename_i letter short
    obtain ⟨-, -, known⟩ := ofShortLetter?_of_shortLetter? short
    have other : letter ≠ '\n' := by
      rintro rfl
      cases known
    simp [Ne.symm other]
  · rename_i plain
    split
    · rw [List.mem_flatMap]
      rintro ⟨unit, -, listed⟩
      exact (ne_of_mem_longEscape listed).2 rfl
    · rw [List.mem_singleton]
      rintro rfl
      cases plain

theorem newline_notMem_stringText (ascii : Bool) (value : String) :
    '\n' ∉ stringText ascii value := by
  rw [stringText, List.mem_append, List.mem_cons, List.mem_flatMap]
  rintro ((quote | ⟨c, -, listed⟩) | quote)
  · cases quote
  · exact newline_notMem_charText ascii c listed
  · cases List.mem_singleton.mp quote

theorem newline_notMem_slashText {text : List Char} (plain : '\n' ∉ text) (escape : Bool) :
    '\n' ∉ text.flatMap (slashText escape) := by
  rw [List.mem_flatMap]
  rintro ⟨c, inside, listed⟩
  unfold slashText at listed
  split at listed
  · revert listed
    decide
  · exact plain (List.mem_singleton.mp listed ▸ inside)

end PathQuery.Json
