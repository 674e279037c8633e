import Mathlib
import RecordFilter.Proofs.Json.RuleSetForm
import RecordFilter.Proofs.Json.TreeLanguage
import RecordFilter.Proofs.Json.UncheckedStrings

/-!
# The texts of rule sets

A text is read as a rule set exactly when it is a document of the grammar and the tree of the
document has the form of a rule set.  The reader never sees that tree.  It decodes as it
reads, and gives up at the first problem.

A number is worth what the reader computes for it.  That is not always the nearest double, so
close to the largest one the reader refuses numbers that are in range (`nearLargest`).
-/

namespace RecordFilter

open Number Json

/-- A text is read as a rule set exactly when it is a document, nested no deeper than 127
arrays and objects, whose tree is decoded to the rule set. -/
theorem RuleSet.ofJson_eq_ok_iff [Dialect] {text : String} {rules : RuleSet} :
    RuleSet.ofJson text = .ok rules ↔
      ∃ tree, DocumentText Numeral.value? 127 text.toList tree ∧ RuleSet.ofTree? tree = some rules := by
  rw [RuleSet.ofJson_eq_ofBytes, RuleSet.ofBytes_eq_ok_iff]
  simp only [Tree.parse_eq_ok_iff]
  rfl

/-! ## Numbers close to the largest -/

/-- The value of a numeral with its float the nearest to what is written. -/
def Json.Numeral.nearest? (t : Numeral) : Option NumberValue :=
  if t.isInteger then some (.integer t.wholeValue)
  else
    let x := (⟨t.negative, t.whole, t.fraction, t.exponentValue⟩ : Decimal).nearest
    if x.isFinite then some (.float x) else none

/-- A rule set as a text, with a number just below the largest double. -/
def nearLargest : String :=
  "[\"And\",[[\"N\",\"Equal\",1797693134862315708e290]]]"

/-- The rule set that the text should denote. -/
def nearLargestRules : RuleSet :=
  ⟨some .and, [⟨"N", .equal, some (.float (.ofMagnitude false (Binary64.infinite - 1)))⟩]⟩

theorem documentText_nearLargest :
    DocumentText Numeral.nearest? 127 nearLargest.toList
      (.array [.string "And", .array [.array [.string "N", .string "Equal",
        .number (.float (.ofMagnitude false (Binary64.infinite - 1)))]]]) := by
  have hconnector : ValueText Numeral.nearest? 126 ('"' :: "And".toList ++ ['"']) (.string "And") :=
    .string (QuotedText.of_plain (by simp))
  have hfield : ValueText Numeral.nearest? 124 ('"' :: "N".toList ++ ['"']) (.string "N") :=
    .string (QuotedText.of_plain (by simp))
  have hoperator : ValueText Numeral.nearest? 124 ('"' :: "Equal".toList ++ ['"']) (.string "Equal") :=
    .string (QuotedText.of_plain (by simp))
  have hwhole : WholeText "1797693134862315708".toList
      [1, 7, 9, 7, 6, 9, 3, 1, 3, 4, 8, 6, 2, 3, 1, 5, 7, 0, 8] :=
    ⟨⟨by decide, by decide, rfl⟩, by decide⟩
  have hexponent : ExponentText ('e' :: [] ++ "290".toList) (some (false, [2, 9, 0])) :=
    .digits (by simp) (.sign .none) ⟨by decide, by decide, rfl⟩
  have hvalue : (⟨false, [1, 7, 9, 7, 6, 9, 3, 1, 3, 4, 8, 6, 2, 3, 1, 5, 7, 0, 8], [],
      some (false, [2, 9, 0])⟩ : Numeral).nearest? =
        some (.float (.ofMagnitude false (Binary64.infinite - 1))) := by
    decide +kernel
  have hnumber : ValueText Numeral.nearest? 124 _
      (.number (.float (.ofMagnitude false (Binary64.infinite - 1)))) :=
    .number (.parts .none hwhole .none hexponent) hvalue
  have hcondition : ValueText Numeral.nearest? 125 _ _ :=
    .array (.items spaces_nil hfield (.next spaces_nil spaces_nil hoperator
      (.next spaces_nil spaces_nil hnumber (.done spaces_nil))))
  have hconditions : ValueText Numeral.nearest? 126 _ _ :=
    .array (.items spaces_nil hcondition (.done spaces_nil))
  have hrules : ValueText Numeral.nearest? 127 _ _ :=
    .array (.items spaces_nil hconnector
      (.next spaces_nil spaces_nil hconditions (.done spaces_nil)))
  exact .document spaces_nil hrules spaces_nil

/-- The text is a document in which no number is out of range, and it is refused. -/
theorem RuleSet.ofJson_nearLargest :
    ¬ (RuleSet.ofJson nearLargest = .ok nearLargestRules ↔
      ∃ tree, DocumentText Numeral.nearest? 127 nearLargest.toList tree ∧
        RuleSet.ofTree? tree = some nearLargestRules) ∧
    RuleSet.ofJson nearLargest = .error .malformed := by
  have hrefused : RuleSet.ofJson nearLargest = .error .malformed := by decide +kernel
  refine ⟨fun h => ?_, hrefused⟩
  have hread := h.2 ⟨_, documentText_nearLargest, rfl⟩
  rw [hrefused] at hread
  cases hread

end RecordFilter
