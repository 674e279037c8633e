import Mathlib
import RecordFilter.Proofs.Json.Document
import RecordFilter.Proofs.Json.UncheckedStrings

/-!
# Writing a rule set and reading it again

What a rule set is written as is read as the same rule set, but for floats that are not
finite: they are written as `null` and come back as no literal at all (`RuleSet.saved`).
All that is asked of the text of a finite float is that it is read back (`ReadsBack`), as
any kind of number.
-/

namespace RecordFilter

open Number Json Reader Text

/-- What is left of a literal once it has been written and read. -/
def Literal.saved? : Literal → Option Literal
  | .float x => if x.isFinite then some (.float x) else none
  | literal => some literal

def Condition.saved (c : Condition) : Condition :=
  { c with value := c.value.bind Literal.saved? }

/-- The rule set with every float that is not finite left out. -/
def RuleSet.saved (rules : RuleSet) : RuleSet :=
  { rules with conditions := rules.conditions.map Condition.saved }

theorem Literal.readValue_returns (depth : Nat) (literal : Literal)
    (h : ∀ x, literal = .float x → x.isFinite → ReadsBack x) :
    Returns (readValue depth) (bytesOf literal.json) (.ok literal.saved?) := by
  cases literal with
  | bool b => exact readValue_returns_bool depth b
  | string s => exact readValue_returns_string depth s
  | int n =>
    have hread := readNumber_returns_wholeText n
    have hvalue := readValue_returns_number depth (leads_of_returns_readNumber hread) hread
    have hofNumber : Literal.ofNumber (.integer n.toInt) = .int n := by
      rw [Literal.ofNumber, if_pos n.toInt_le, Int64.ofInt_toInt]
    rw [Literal.json, Literal.saved?, ← hofNumber]
    · exact hvalue
    · exact fun _ => Literal.noConfusion
  | float x =>
    by_cases hx : x.isFinite
    · have hread := (h x rfl hx).returns hx
      have hvalue := readValue_returns_number depth (leads_of_returns_readNumber hread) hread
      rw [Literal.json, if_pos hx, Literal.saved?, if_pos hx]
      exact hvalue
    · rw [Literal.json, if_neg hx, Literal.saved?, if_neg hx]
      exact readValue_returns_null depth

/-- A rule set that is written and read again is the same, but for floats that are not
finite. -/
theorem RuleSet.ofJson_toJson [Dialect] (rules : RuleSet)
    (h : ∀ c ∈ rules.conditions, ∀ x, c.value = some (.float x) → x.isFinite → ReadsBack x) :
    RuleSet.ofJson rules.toJson = .ok rules.saved := by
  have hvalues : ∀ c ∈ rules.conditions,
      Returns (readValue 124) (bytesOf ((c.value.map Literal.json).getD "null".toList))
        (.ok (c.value.bind Literal.saved?)) := by
    intro c hc
    cases hvalue : c.value with
    | none => exact readValue_returns_null 124
    | some literal =>
      refine literal.readValue_returns 124 fun x hx hfinite => h c hc x ?_ hfinite
      rw [hvalue, hx]
  have hconditions := readConditions_returns 124 Condition.field Condition.operator
    (fun c => (c.value.map Literal.json).getD "null".toList)
    (fun c => .ok (c.value.bind Literal.saved?)) rules.conditions hvalues
  have hrules := (readRuleSet_returns 126 rules.connector hconditions).complete
  rw [RuleSet.ofJson_eq_ofBytes, RuleSet.toJson, utf8_ofList, RuleSet.ofBytes]
  refine hrules.trans ?_
  have hmap : rules.conditions.mapM (fun c =>
      (Except.ok (c.value.bind Literal.saved?)).map fun v =>
        (⟨c.field, c.operator, v⟩ : Condition)) =
      (.ok (rules.conditions.map Condition.saved) : Except Fault (List Condition)) := by
    exact List.mapM_pure
  rw [hmap]
  rfl

/-- Quotes, a backslash, a control character and a character outside the first plane in a
name; a minus zero; and two floats that JSON has no text for. -/
def audit : RuleSet where
  connector := none
  conditions :=
    [⟨"\"a\\b\"\x01\n😀", .contains, some (.string "")⟩,
      ⟨"Balance", .equal, some (.float ⟨true, 0⟩)⟩,
      ⟨"Balance", .lessThan, some (.float ⟨false, 0x3FF8000000000000⟩)⟩,
      ⟨"Balance", .notEqual, some (.float .nan)⟩,
      ⟨"Balance", .greaterThan, some (.float (.infinity true))⟩,
      ⟨"Entries", .greaterThan, some (.int Int64.minValue)⟩,
      ⟨"", .equal, none⟩]

theorem RuleSet.ofJson_toJson_audit :
    (∀ c ∈ audit.conditions, ∀ x, c.value = some (.float x) → x.isFinite → ReadsBack x) ∧
    RuleSet.ofJson audit.toJson = .ok
      ⟨none,
        [⟨"\"a\\b\"\x01\n😀", .contains, some (.string "")⟩,
          ⟨"Balance", .equal, some (.float ⟨true, 0⟩)⟩,
          ⟨"Balance", .lessThan, some (.float ⟨false, 0x3FF8000000000000⟩)⟩,
          ⟨"Balance", .notEqual, none⟩,
          ⟨"Balance", .greaterThan, none⟩,
          ⟨"Entries", .greaterThan, some (.int Int64.minValue)⟩,
          ⟨"", .equal, none⟩]⟩ := by
  have h : ∀ c ∈ audit.conditions, ∀ x, c.value = some (.float x) → x.isFinite → ReadsBack x := by
    intro c hc x hx hfinite
    simp only [audit, List.mem_cons, List.not_mem_nil, or_false] at hc
    rcases hc with rfl | rfl | rfl | rfl | rfl | rfl | rfl <;> cases hx
    · exact ⟨.float ⟨true, 0⟩, by decide +kernel, rfl⟩
    · exact ⟨.float ⟨false, 0x3FF8000000000000⟩, by decide +kernel, rfl⟩
    · exact absurd hfinite (by decide)
    · exact absurd hfinite (by decide)
  exact ⟨h, RuleSet.ofJson_toJson audit h⟩

end RecordFilter
