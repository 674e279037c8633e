import Mathlib
import RecordFilter.Proofs.Json.NumberLanguage

/-!
# Whole numbers in JSON

`WholeNumeral` is the spelling of a whole number of any size.  Its token is read whatever
follows (`WholeNumeral.read_returns`); what number comes of it is a question of its own.  Every
whole number has a spelling, and every 64-bit number is read back exactly from the one that is
written for it.
-/

namespace RecordFilter.Json

open Number Reader Text

/-- A whole number as it is spelt: digits with no needless zero in front, and perhaps a
sign. -/
structure WholeNumeral where
  negative : Bool
  digits : List Nat
  lt_ten : ∀ d ∈ digits, d < 10
  ne_nil : digits ≠ []
  canonical : ∀ ds, digits = 0 :: ds → ds = []

namespace WholeNumeral

def text (w : WholeNumeral) : List Char :=
  (if w.negative then ['-'] else []) ++ w.digits.map Nat.digitChar

def value (w : WholeNumeral) : Int :=
  if w.negative then -ofDigits w.digits else ofDigits w.digits

def token (w : WholeNumeral) : Numeral :=
  ⟨w.negative, w.digits, [], none⟩

/-- The spelling is a number of the grammar, and the token is what it is written from. -/
theorem numeralText (w : WholeNumeral) : NumeralText w.text w.token := by
  have hsign : SignText (if w.negative then ['-'] else []) w.negative := by
    cases w.negative
    · exact .none
    · exact .minus
  have hwhole : WholeText (w.digits.map Nat.digitChar) w.digits := by
    refine ⟨⟨w.ne_nil, w.lt_ten, rfl⟩, fun hzero => ?_⟩
    obtain ⟨ds, hds⟩ := List.head?_eq_some_iff.1 hzero
    rw [hds, w.canonical ds hds]
  have hparts := NumeralText.parts hsign hwhole .none .none
  rw [List.append_nil, List.append_nil] at hparts
  exact hparts

theorem read_returns (w : WholeNumeral) :
    Returns Numeral.read (bytesOf w.text) (.ok w.token) :=
  Numeral.read_returns w.numeralText

theorem token_isWhole (w : WholeNumeral) : w.token.isWhole := rfl

theorem token_wholeValue (w : WholeNumeral) : w.token.wholeValue = w.value := rfl

/-- The digits that a natural number is written with.  The induction is on the number: its
last digit stands behind the digits of a tenth of it. -/
theorem exists_digits (n : Nat) :
    ∃ ds : List Nat, ds.map Nat.digitChar = decimalText n ∧ ofDigits ds = n ∧ ds ≠ [] ∧
      (∀ d ∈ ds, d < 10) ∧ ∀ es, ds = 0 :: es → es = [] ∧ n = 0 := by
  induction n using Nat.strongRecOn with
  | _ n ih =>
    by_cases hn : n < 10
    · refine ⟨[n], ?_, by simp [ofDigits], List.cons_ne_nil n [], by simpa using hn, ?_⟩
      · rw [decimalText, Nat.toDigits_of_lt_base hn]
        rfl
      · intro es hes
        cases hes
        exact ⟨rfl, rfl⟩
    · have hten : 10 ≤ n := Nat.not_lt.1 hn
      obtain ⟨ds, htext, hvalue, hne, hlt, hzero⟩ := ih (n / 10) (by omega)
      refine ⟨ds ++ [n % 10], ?_, ?_, by simp, ?_, ?_⟩
      · rw [List.map_append, htext, decimalText, decimalText,
          Nat.toDigits_of_base_le (by decide) hten]
        rfl
      · have happend : ofDigits (ds ++ [n % 10]) = 10 * ofDigits ds + n % 10 := by
          simp [ofDigits, List.foldl_append]
        rw [happend, hvalue]
        omega
      · intro d hd
        rcases List.mem_append.1 hd with hd | hd
        · exact hlt d hd
        · rw [List.mem_singleton.1 hd]
          omega
      · intro es hes
        obtain ⟨d, tail, rfl⟩ := List.exists_cons_of_ne_nil hne
        rw [List.cons_append, List.cons.injEq] at hes
        have htenth := (hzero tail (by rw [hes.1])).2
        omega

/-- Every whole number can be spelt, and without a sign before a zero. -/
theorem exists_text_eq_wholeText (n : Int) :
    ∃ w : WholeNumeral, w.text = wholeText n ∧ w.value = n ∧ (w.negative → n ≠ 0) := by
  obtain ⟨ds, htext, hvalue, hne, hlt, hzero⟩ := exists_digits n.natAbs
  refine ⟨⟨decide (n < 0), ds, hlt, hne, fun es hes => (hzero es hes).1⟩, ?_, ?_, ?_⟩
  · by_cases hn : n < 0 <;> simp [text, wholeText, hn, htext]
  · by_cases hn : n < 0
    · simp only [value, hn, decide_true, if_true, hvalue]
      omega
    · simp only [value, hn, decide_false, hvalue, Bool.false_eq_true, if_false]
      omega
  · intro hnegative
    have hn : n < 0 := of_decide_eq_true hnegative
    omega

theorem leads (w : WholeNumeral) : Leads .number (bytesOf w.text) := by
  have hread := w.read_returns [] delimited_nil
  rw [List.append_nil] at hread
  exact leads_of_read hread

end WholeNumeral

/-- A whole number in range is read back as that number. -/
theorem readNumber_returns_wholeText (n : Int64) :
    Returns readNumber (bytesOf (wholeText n.toInt)) (.ok (.integer n.toInt)) := by
  obtain ⟨w, htext, hvalue, hnegative⟩ := WholeNumeral.exists_text_eq_wholeText n.toInt
  have hinteger : w.token.isInteger := by
    have hlow := n.le_toInt
    have hhigh := n.toInt_lt
    have hzero : (w.token.negative && decide (n.toInt = 0)) = false := by
      rw [Bool.and_eq_false_imp]
      intro hminus
      exact decide_eq_false (hnegative hminus)
    rw [Numeral.isInteger, WholeNumeral.token_isWhole, WholeNumeral.token_wholeValue, hvalue, hzero]
    simp
    omega
  have hvalue? : w.token.value? = some (.integer n.toInt) := by
    rw [Numeral.value?, if_pos hinteger, WholeNumeral.token_wholeValue, hvalue]
  rw [← htext]
  exact readNumber_returns w.numeralText hvalue?

end RecordFilter.Json
