import Mathlib
import RecordFilter.Proofs.NumberSyntax
import RecordFilter.Proofs.Stripping
import RecordFilter.Proofs.WholeFloats

/-!
# Strings as operands of whole fields

A string fits an `int` field if it is a whole number in digits, with white space around it at most,
and the number is one of sixty-four bits.  The number is found with no bound on the digits and
compared with the range as a whole, so that no numeral is too long to be refused or taken.

White space inside the number, a sign with no digits and digits of other scripts are not in the grammar.
-/

namespace RecordFilter

open Number

namespace Literal

/-- The message for a string that does not fit has the string as it was written. -/
theorem message_typeMismatch_string (field s : String) (type : ScalarType) :
    (CompileError.typeMismatch field type (.literal (.string s))).message =
      "type mismatch on field '" ++ field ++ "': expected " ++ type.name ++
        ", found string literal \"" ++ s ++ "\"" := by
  have hmessage : (CompileError.typeMismatch field type (.literal (.string s))).message =
      "type mismatch on field '" ++ field ++ "': expected " ++ type.name ++ ", found " ++
        ("string" ++ " literal " ++ ("\"" ++ s ++ "\"")) := rfl
  have hfound : ", found string literal \"" = ", found " ++ ("string" ++ (" literal " ++ "\"")) := by
    decide
  rw [hmessage, hfound]
  simp only [String.append_assoc]

/-- A string fits an `int` field exactly if it is, without the white space at its ends, an optional
sign and digits that denote a number from `-2 ^ 63` to `2 ^ 63 - 1`, and what is compared is that
number.  Any other string is reported as it is written.  More or less white space around a string
makes no difference. -/
theorem toInt?_string_exact (s : String) :
    (∀ n : Int64, (Literal.string s).toInt? = some n ↔
        ∃ text, Text.Stripped s.toList text ∧ IntegerText text n.toInt) ∧
      ((∃ n, (Literal.string s).toInt? = some n) ↔
        ∃ text i, Text.Stripped s.toList text ∧ IntegerText text i ∧ -2 ^ 63 ≤ i ∧ i ≤ 2 ^ 63 - 1) ∧
      (∀ (options : CompileOptions) (c : Condition) (route : List Nat),
        compileTest options c (.string s) .int route =
            .error (.typeMismatch c.field .int (.literal (.string s))) ↔
          ¬ ∃ n, (Literal.string s).toInt? = some n) ∧
      (∀ field, (CompileError.typeMismatch field .int (.literal (.string s))).message =
        "type mismatch on field '" ++ field ++ "': expected " ++ "int" ++
          ", found string literal \"" ++ s ++ "\"") ∧
      ∀ before after : List Char, (∀ c ∈ before ++ after, Text.isBlank c) →
        (Literal.string (String.ofList (before ++ (s.toList ++ after)))).toInt? =
          (Literal.string s).toInt? := by
  have hsome : ∀ n : Int64, (Literal.string s).toInt? = some n ↔
      ∃ text, Text.Stripped s.toList text ∧ IntegerText text n.toInt := by
    intro n
    simp only [toInt?, Option.bind_eq_some_iff, int64?_eq_some_iff, exists_eq_right,
      wholeNumber?_eq_some_iff, ← Text.strip_eq_iff, exists_eq_left']
  refine ⟨hsome, ?_, ?_, ?_, ?_⟩
  · constructor
    · rintro ⟨n, hn⟩
      obtain ⟨text, hstripped, htext⟩ := (hsome n).1 hn
      exact ⟨text, n.toInt, hstripped, htext, n.le_toInt, Int.le_sub_one_of_lt n.toInt_lt⟩
    · rintro ⟨text, i, hstripped, htext, hlow, hhigh⟩
      refine ⟨.ofInt i, (hsome _).2 ⟨text, hstripped, ?_⟩⟩
      rwa [Int64.toInt_ofInt_of_le hlow (by omega)]
  · intro options c route
    exact compileTest_eq_typeMismatch_iff_of_fit? rfl
  · intro field
    exact message_typeMismatch_string field s .int
  · intro before after hblank
    rw [List.forall_mem_append] at hblank
    rw [toInt?, String.toList_ofList, Text.strip_append hblank.1 hblank.2, toInt?]

/-- The least number fits, also between an ideographic space and the end of a line. -/
theorem toInt?_string_exact_least :
    (Literal.string "-9223372036854775808").toInt? = some Int64.minValue ∧
      (Literal.string (String.ofList
        (['\u3000'] ++ ("-9223372036854775808".toList ++ ['\n'])))).toInt? =
        (Literal.string "-9223372036854775808").toInt? := by
  obtain ⟨-, -, -, -, hpadded⟩ := toInt?_string_exact "-9223372036854775808"
  refine ⟨by decide +kernel, hpadded ['\u3000'] ['\n'] fun c hc => ?_⟩
  fin_cases hc <;> decide

end Literal

end RecordFilter
