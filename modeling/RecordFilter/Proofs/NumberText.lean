import Mathlib
import RecordFilter.Coercion
import RecordFilter.Proofs.Json.Grammar
import RecordFilter.Proofs.Number.Digits

/-!
# Numbers of the JSON grammar in strings

A string that is compared with a number is read by readers of its own, which know nothing of JSON.
They take every number of the JSON grammar for what it is: `ofText?_numeralText` for numerals and
`wholeNumber?_numeralText` for whole numbers, which must have neither a point nor an exponent.
-/

namespace RecordFilter

open Number Json

namespace Json.Numeral

/-- A token of JSON as the numeral that is read from the same text. -/
def decimal (t : Numeral) : Decimal where
  negative := t.negative
  whole := t.whole
  fraction := t.fraction
  exponent :=
    match t.exponent with
    | none => 0
    | some (negative, ds) =>
      if negative then -Decimal.exponentValue ds else Decimal.exponentValue ds

end Json.Numeral

/-! ## What comes next -/

/-- No digit comes next. -/
def NoDigit (text : List Char) : Prop :=
  ∀ c ∈ text.head?, isDigit c = false

theorem noDigit_nil : NoDigit [] := by
  intro c hc
  cases hc

theorem noDigit_cons {c : Char} (h : isDigit c = false) (text : List Char) : NoDigit (c :: text) := by
  intro d hd
  cases hd
  exact h

theorem mark_of_mem {e : Char} (h : e ∈ ['e', 'E']) : isDigit e = false ∧ e ≠ '.' := by
  simp only [List.mem_cons, List.not_mem_nil, or_false] at h
  rcases h with rfl | rfl <;> decide

theorem noDigit_exponentText {text : List Char} {exponent : Option (Bool × List Nat)}
    (h : ExponentText text exponent) : NoDigit text := by
  cases h with
  | none => exact noDigit_nil
  | digits he _ _ => exact noDigit_cons (mark_of_mem he).1 _

theorem no_point_exponentText {text : List Char} {exponent : Option (Bool × List Nat)}
    (h : ExponentText text exponent) : ∀ c ∈ text.head?, c ≠ '.' := by
  intro c hc
  cases h with
  | none => cases hc
  | digits he _ _ =>
    cases hc
    exact (mark_of_mem he).2

theorem noDigit_fractionText {text rest : List Char} {ds : List Nat} (h : FractionText text ds)
    (hrest : NoDigit rest) : NoDigit (text ++ rest) := by
  cases h with
  | none => exact hrest
  | digits _ => exact noDigit_cons (by decide) _

/-- Digits come first where there are digits. -/
theorem exists_digit_first {text : List Char} {ds : List Nat} (h : DigitText text ds) :
    ∃ c tail, text = c :: tail ∧ isDigit c = true := by
  obtain ⟨hne, hlt, rfl⟩ := h
  obtain ⟨d, ds, rfl⟩ := List.exists_cons_of_ne_nil hne
  exact ⟨_, _, rfl, (isDigit_digitChar d (hlt d List.mem_cons_self)).1⟩

/-! ## The parts of a numeral -/

theorem spanDigits_digitText {text rest : List Char} {ds : List Nat} (h : DigitText text ds)
    (hrest : NoDigit rest) : spanDigits (text ++ rest) = (ds, rest) := by
  obtain ⟨-, hlt, rfl⟩ := h
  exact spanDigits_append hlt hrest

theorem spanSign_of_digit {c : Char} (h : isDigit c = true) (rest : List Char) :
    spanSign (c :: rest) = (false, c :: rest) := by
  unfold spanSign
  split
  · next heq =>
    cases heq
    cases h
  · next heq =>
    cases heq
    cases h
  · rfl

theorem spanSign_signText {sign text : List Char} {negative : Bool} {ds : List Nat}
    (h : SignText sign negative) (htext : DigitText text ds) (rest : List Char) :
    spanSign (sign ++ (text ++ rest)) = (negative, text ++ rest) := by
  obtain ⟨c, tail, rfl, hc⟩ := exists_digit_first htext
  cases h with
  | none => exact spanSign_of_digit hc (tail ++ rest)
  | minus => rfl

theorem spanSign_exponentSignText {sign text : List Char} {negative : Bool} {ds : List Nat}
    (h : ExponentSignText sign negative) (htext : DigitText text ds) (rest : List Char) :
    spanSign (sign ++ (text ++ rest)) = (negative, text ++ rest) := by
  cases h with
  | sign h => exact spanSign_signText h htext rest
  | plus => rfl

theorem spanFraction_fractionText {text rest : List Char} {ds : List Nat} (h : FractionText text ds)
    (hrest : NoDigit rest) (hpoint : ∀ c ∈ rest.head?, c ≠ '.') :
    Decimal.spanFraction (text ++ rest) = (ds, rest) := by
  cases h with
  | none =>
    rw [List.nil_append, Decimal.spanFraction.eq_def]
    split
    · next cs => exact absurd rfl (hpoint '.' rfl)
    · rfl
  | digits h => exact spanDigits_digitText h hrest

theorem exponent?_exponentText {text : List Char} {t : Numeral} (h : ExponentText text t.exponent) :
    Decimal.exponent? text = some t.decimal.exponent := by
  obtain ⟨negative, whole, fraction, exponent⟩ := t
  cases h with
  | none => rfl
  | @digits e sign text negative ds he hsign htext =>
    have hmark : e = 'e' ∨ e = 'E' := by simpa using he
    have hspan := spanSign_exponentSignText hsign htext []
    have hdigits := spanDigits_digitText htext noDigit_nil
    rw [List.append_nil] at hspan hdigits
    obtain ⟨d, ds, rfl⟩ := List.exists_cons_of_ne_nil htext.1
    rw [List.cons_append, Decimal.exponent?, if_pos hmark, hspan]
    dsimp only
    rw [hdigits]
    rfl

/-! ## Numerals -/

/-- A number of the JSON grammar is read from a text as the numeral that it is. -/
theorem ofText?_numeralText {text : List Char} {t : Numeral} (h : NumeralText text t) :
    Decimal.ofText? text = some t.decimal := by
  cases h with
  | @parts _ _ _ _ negative whole fraction exponent hsign hwhole hfraction hexponent =>
    have hafter := noDigit_exponentText hexponent
    have hexp := exponent?_exponentText (t := ⟨negative, whole, fraction, exponent⟩) hexponent
    have hne : ¬ (whole = [] ∧ fraction = []) := fun hnil => hwhole.1.1 hnil.1
    rw [Decimal.ofText?, spanSign_signText hsign hwhole.1]
    dsimp only
    rw [spanDigits_digitText hwhole.1 (noDigit_fractionText hfraction hafter)]
    dsimp only
    rw [spanFraction_fractionText hfraction hafter (no_point_exponentText hexponent)]
    dsimp only
    rw [if_neg hne, hexp]
    rfl

/-- A number of the JSON grammar is read as a whole number if it has neither a point nor an
exponent, and not at all if it has one. -/
theorem wholeNumber?_numeralText {text : List Char} {t : Numeral} (h : NumeralText text t) :
    wholeNumber? text = if t.isWhole then some t.wholeValue else none := by
  cases h with
  | parts hsign hwhole hfraction hexponent =>
    have hafter := noDigit_exponentText hexponent
    obtain ⟨d, ds, rfl⟩ := List.exists_cons_of_ne_nil hwhole.1.1
    rw [wholeNumber?, spanSign_signText hsign hwhole.1]
    dsimp only
    rw [spanDigits_digitText hwhole.1 (noDigit_fractionText hfraction hafter)]
    cases hfraction with
    | digits htext =>
      obtain ⟨e, es, rfl⟩ := List.exists_cons_of_ne_nil htext.1
      rfl
    | none =>
      cases hexponent with
      | none => rfl
      | digits _ _ _ => rfl

/-- A number of the JSON grammar begins with a digit or a minus sign. -/
theorem exists_first_of_numeralText {text : List Char} {t : Numeral} (h : NumeralText text t) :
    ∃ c tail, text = c :: tail ∧ (c = '-' ∨ ∃ d < 10, c = Nat.digitChar d) := by
  cases h with
  | parts hsign hwhole _ _ =>
    cases hsign with
    | minus => exact ⟨_, _, rfl, .inl rfl⟩
    | none =>
      obtain ⟨⟨hne, hlt, rfl⟩, -⟩ := hwhole
      obtain ⟨d, ds, rfl⟩ := List.exists_cons_of_ne_nil hne
      exact ⟨_, _, rfl, .inr ⟨d, hlt d List.mem_cons_self, rfl⟩⟩

/-! ## Characters -/

theorem mem_numberChars_of_digitText {text : List Char} {ds : List Nat} (h : DigitText text ds) :
    ∀ c ∈ text, c ∈ numberChars := by
  obtain ⟨-, hlt, rfl⟩ := h
  have hdigit : ∀ d < 10, Nat.digitChar d ∈ numberChars := by decide
  intro c hc
  obtain ⟨d, hd, rfl⟩ := List.mem_map.1 hc
  exact hdigit d (hlt d hd)

theorem mem_numberChars_of_signText {text : List Char} {negative : Bool} (h : SignText text negative) :
    ∀ c ∈ text, c ∈ numberChars := by
  cases h with
  | none => simp
  | minus => simp [numberChars]

theorem mem_numberChars_of_exponentSignText {text : List Char} {negative : Bool}
    (h : ExponentSignText text negative) : ∀ c ∈ text, c ∈ numberChars := by
  cases h with
  | sign h => exact mem_numberChars_of_signText h
  | plus => simp [numberChars]

theorem mem_numberChars_of_exponentText {text : List Char} {exponent : Option (Bool × List Nat)}
    (h : ExponentText text exponent) : ∀ c ∈ text, c ∈ numberChars := by
  cases h with
  | none => simp
  | digits he hsign htext =>
    have hmark : ∀ e ∈ ['e', 'E'], e ∈ numberChars := by simp [numberChars]
    rw [List.cons_append, List.forall_mem_cons, List.forall_mem_append]
    exact ⟨hmark _ he, mem_numberChars_of_exponentSignText hsign, mem_numberChars_of_digitText htext⟩

theorem mem_numberChars {text : List Char} {t : Numeral} (h : NumeralText text t) :
    ∀ c ∈ text, c ∈ numberChars := by
  cases h with
  | parts hsign hwhole hfraction hexponent =>
    simp only [List.forall_mem_append]
    refine ⟨mem_numberChars_of_signText hsign, mem_numberChars_of_digitText hwhole.1, ?_, ?_⟩
    · cases hfraction with
      | none => simp
      | digits htext =>
        exact List.forall_mem_cons.2 ⟨by decide, mem_numberChars_of_digitText htext⟩
    · exact mem_numberChars_of_exponentText hexponent

theorem isBlank_of_mem_numberChars {c : Char} (h : c ∈ numberChars) : Text.isBlank c = false := by
  fin_cases h <;> decide

/-- A number of the JSON grammar has no white space around it. -/
theorem strip_numeralText {text : List Char} {t : Numeral} (h : NumeralText text t) :
    Text.strip text = text := by
  have hchars := mem_numberChars h
  apply Text.strip_eq_self
  · intro c hc
    exact isBlank_of_mem_numberChars (hchars c (List.mem_of_mem_head? hc))
  · intro c hc
    exact isBlank_of_mem_numberChars (hchars c (List.mem_of_getLast? hc))

/-- A number of the JSON grammar is written in a string as it is. -/
theorem write_numeralText {text : List Char} {t : Numeral} (h : NumeralText text t) :
    StringToken.write (String.ofList text) = '"' :: text ++ ['"'] := by
  have hescaped : ∀ c ∈ numberChars, StringToken.escaped c = [c] := by
    intro c hc
    fin_cases hc <;> decide
  have htext : text.flatMap StringToken.escaped = text := by
    rw [List.flatMap_congr fun c hc => hescaped c (mem_numberChars h c hc), List.flatMap_singleton']
  rw [StringToken.write, String.toList_ofList, htext]
  rfl

end RecordFilter
