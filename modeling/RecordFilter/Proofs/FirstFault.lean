import Mathlib
import RecordFilter.Proofs.Truncation

/-!
# The first problem in a text

A text is read once, from left to right, and the first problem in it is the answer.  What
stands behind that problem is not read, so it can neither mend the text nor bring another
problem to light: the answer to a text that was refused is the answer to every longer one.

There are two exceptions.  A text that ends too early may go on in the right way, and a
number at the end of a text may go on with more digits, and then be another number or no
number at all.  `RuleSet.ofJson_append_of_error` leaves out both.

Dialects differ in one fault, that of an operator whose key is not a string, and in each of
them the fault is found at the key.
-/

namespace RecordFilter

open Json Reader Text

/-- The last byte of a text is part of its last character. -/
theorem Text.getLast?_bytesOf {cs : List Char} {b : UInt8} (h : b ∈ (bytesOf cs).getLast?) :
    ∃ c ∈ cs.getLast?, b ∈ String.utf8EncodeChar c := by
  cases cs using List.reverseRecOn with
  | nil => cases h
  | append_singleton cs c =>
    refine ⟨c, List.getLast?_concat, ?_⟩
    rw [bytesOf_append, bytesOf_cons, bytesOf_nil, List.append_nil,
      List.getLast?_append_of_ne_nil _ String.utf8EncodeChar_ne_nil] at h
    exact List.mem_of_getLast? h

namespace Json

theorem asciiChar_mem_numberChars :
    ∀ b : UInt8, isNumberByte b → asciiChar b ∈ numberChars := by
  decide +kernel

/-- A text that ends in no character of a number ends in no byte of one. -/
theorem isNumberByte_getLast?_bytesOf {cs : List Char}
    (h : ∀ c ∈ cs.getLast?, c ∉ numberChars) :
    ∀ b ∈ (bytesOf cs).getLast?, isNumberByte b = false := by
  intro b hb
  obtain ⟨c, hc, hmem⟩ := getLast?_bytesOf hb
  by_contra hnumber
  rw [Bool.not_eq_false] at hnumber
  apply h c hc
  rcases Nat.lt_or_ge c.toNat 0x80 with hascii | hwide
  · rw [utf8EncodeChar_ascii hascii, List.mem_singleton] at hmem
    rw [← asciiChar_toUInt8 hascii, ← hmem]
    exact asciiChar_mem_numberChars b hnumber
  · have hge := le_of_mem_utf8EncodeChar hwide hmem
    have hlt := Numeral.toNat_lt_of_isNumberByte b hnumber
    omega

end Json

/-- A text that is refused for another reason than its end is refused for the same reason
whatever stands behind it, unless it ends in a number. -/
theorem RuleSet.ofBytes_append_of_error [Dialect] {text : List UInt8} {fault : Fault}
    (h : RuleSet.ofBytes text = .error fault) (hfault : fault ≠ .endOfText)
    (hlast : ∀ b ∈ text.getLast?, isNumberByte b = false) (more : List UInt8) :
    RuleSet.ofBytes (text ++ more) = .error fault := by
  rw [ofBytes, complete] at h ⊢
  cases streams_readRuleSet maxDepth text more with
  | starved hkept =>
    rw [hkept] at h
    cases h
    exact absurd rfl hfault
  | failed hkept hwhole =>
    rw [hkept] at h
    rw [hwhole]
    exact h
  | @settled used left rules _ _ hkept hwhole =>
    -- a rule set was read, so the fault is that something else stands behind it
    rw [hkept] at h
    rw [hwhole]
    show (if (left ++ more).all isSpace then _ else _) = _
    cases hspace : left.all isSpace with
    | true =>
      simp only [hspace, if_true] at h
      cases h
    | false =>
      simp only [hspace] at h
      rw [List.all_append, hspace]
      exact h
  | early _ _ hnever => exact hnever.elim
  | @broken token _ hcut _ _ =>
    obtain ⟨hne, hnumber, front, rfl, -⟩ := hcut
    have hmem : token.getLast hne ∈ (front ++ token).getLast? := by
      rw [List.getLast?_append_of_ne_nil _ hne]
      exact List.getLast?_eq_getLast_of_ne_nil hne
    have hnot := hlast _ hmem
    rw [hnumber _ (List.getLast_mem hne)] at hnot
    cases hnot

/-- The first problem in a text decides.  A text that is not the front of a rule set, and
does not end in a character of a number, is refused for the same reason whatever stands
behind it. -/
theorem RuleSet.ofJson_append_of_error [Dialect] {text : String} {fault : Fault}
    (h : RuleSet.ofJson text = .error fault) (hfault : fault ≠ .endOfText)
    (hlast : ∀ c ∈ text.toList.getLast?, c ∉ numberChars) (more : String) :
    RuleSet.ofJson (text ++ more) = .error fault := by
  rw [ofJson_eq_ofBytes] at h
  rw [ofJson_eq_ofBytes, utf8_append]
  apply ofBytes_append_of_error h hfault
  rw [utf8_eq_bytesOf]
  exact isNumberByte_getLast?_bytesOf hlast

/-- An operator of a wrong name, and an operator whose key is not a string, in front of what
breaks the rules of JSON.  Dialects find different faults in the key, and stop there. -/
theorem RuleSet.ofJson_append_wrongOperator :
    (RuleSet.ofJson "[\"And\",[[\"Age\",\"Is\"" =
        .error (.mismatch (.unknownVariant "Is"
          ["Equal", "NotEqual", "GreaterThan", "LessThan", "Contains"])) ∧
      RuleSet.ofJson ("[\"And\",[[\"Age\",\"Is\"" ++ ",]\\\"1e") =
        .error (.mismatch (.unknownVariant "Is"
          ["Equal", "NotEqual", "GreaterThan", "LessThan", "Contains"]))) ∧
      (@RuleSet.ofJson .older "[\"And\",[[\"Age\",\x7btrue:" =
          .error (.mismatch (.invalidType (.bool true) "variant identifier")) ∧
        @RuleSet.ofJson .older ("[\"And\",[[\"Age\",\x7btrue:" ++ "]\\\"1e") =
          .error (.mismatch (.invalidType (.bool true) "variant identifier"))) ∧
      @RuleSet.ofJson .newer "[\"And\",[[\"Age\",\x7btrue:" = .error .malformed ∧
        @RuleSet.ofJson .newer ("[\"And\",[[\"Age\",\x7btrue:" ++ "]\\\"1e") = .error .malformed := by
  have hname : RuleSet.ofJson "[\"And\",[[\"Age\",\"Is\"" =
      .error (.mismatch (.unknownVariant "Is"
        ["Equal", "NotEqual", "GreaterThan", "LessThan", "Contains"])) := by
    decide +kernel
  have holder : @RuleSet.ofJson .older "[\"And\",[[\"Age\",\x7btrue:" =
      .error (.mismatch (.invalidType (.bool true) "variant identifier")) := by
    decide +kernel
  have hnewer : @RuleSet.ofJson .newer "[\"And\",[[\"Age\",\x7btrue:" = .error .malformed := by
    decide +kernel
  refine ⟨⟨hname, ?_⟩, ⟨holder, ?_⟩, hnewer, ?_⟩
  · exact RuleSet.ofJson_append_of_error hname (by decide) (by simp [numberChars]) _
  · exact @RuleSet.ofJson_append_of_error .older _ _ holder (by decide) (by simp [numberChars]) _
  · exact @RuleSet.ofJson_append_of_error .newer _ _ hnewer (by decide) (by simp [numberChars]) _

end RecordFilter
