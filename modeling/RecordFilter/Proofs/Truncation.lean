import Mathlib
import RecordFilter.Proofs.Json.Accepts
import RecordFilter.Proofs.Json.DocumentContinuation
import RecordFilter.Proofs.Json.UncheckedStrings

/-!
# Truncated rule sets

A text of a rule set that has lost its end has lost a closing bracket.  The reader still
waits for it when it comes to the end of what is left, so it reports that the text ended too
early, wherever that is: it returns no rule set, and finds no other fault.

There is one way in which the loss of the end could show as a fault of another kind, which is
a number that is too large where it is cut.  No number of up to three hundred bytes is.

A text to which something has been added is no rule set any more, unless white space is all
that was added.
-/

namespace RecordFilter

open Json Reader Text

/-- What the end of a text is needed for: where something other than white space is missing,
the reader asks for it. -/
theorem RuleSet.ofBytes_of_truncated [Dialect] {kept dropped : List UInt8} {rules : RuleSet}
    (h : RuleSet.ofBytes (kept ++ dropped) = .ok rules)
    (hshort : ∀ token ∈ numberTokens (kept ++ dropped), token.length ≤ 300)
    (hdropped : ¬ dropped.all isSpace) : RuleSet.ofBytes kept = .error .endOfText := by
  obtain ⟨rest, hread, hspace⟩ := complete_eq_ok_iff.1 h
  cases streams_readRuleSet maxDepth kept dropped with
  | starved hkept => rw [RuleSet.ofBytes, complete, hkept]
  | failed _ hwhole =>
    rw [hread] at hwhole
    cases hwhole
  | settled _ _ _ hwhole =>
    rw [hread] at hwhole
    cases hwhole
    rw [List.all_append, Bool.and_eq_true] at hspace
    exact absurd hspace.2 hdropped
  | early _ _ hnever => exact hnever.elim
  | broken hcut _ hwhole =>
    have hlong := lt_length_of_tooLargeWhereCut (hwhole rules rest hread)
    obtain ⟨hne, hnumber, front, rfl, hfront⟩ := hcut
    obtain ⟨token, htoken, hle⟩ := exists_numberToken hfront hnumber dropped
    have hle' := hshort token htoken
    omega

/-- A rule set is read from a text and from a longer one only if what was added is white
space, and then it is the same rule set. -/
theorem RuleSet.isSpace_of_ofBytes_append [Dialect] {text more : List UInt8}
    {rules rules' : RuleSet}
    (h : RuleSet.ofBytes text = .ok rules) (h' : RuleSet.ofBytes (text ++ more) = .ok rules') :
    more.all isSpace ∧ rules' = rules := by
  obtain ⟨rest, hread, -⟩ := complete_eq_ok_iff.1 h
  obtain ⟨rest', hread', hspace⟩ := complete_eq_ok_iff.1 h'
  cases streams_readRuleSet maxDepth text more with
  | starved hkept =>
    rw [hread] at hkept
    cases hkept
  | failed hkept _ =>
    rw [hread] at hkept
    cases hkept
  | settled _ _ hkept hwhole =>
    rw [hread] at hkept
    cases hkept
    rw [hread'] at hwhole
    cases hwhole
    rw [List.all_append, Bool.and_eq_true] at hspace
    exact ⟨hspace.2, rfl⟩
  | early _ _ hnever => exact hnever.elim
  | broken _ hkept _ =>
    rw [hread] at hkept
    cases hkept

theorem utf8_append (s t : String) : utf8 (s ++ t) = utf8 s ++ utf8 t := by
  rw [utf8_eq_bytesOf, utf8_eq_bytesOf, utf8_eq_bytesOf, String.toList_append, bytesOf_append]

/-- Where the end of a rule set's text is cut off, in front of the last closing bracket or
brace, the text ends too early, if no number in it is longer than three hundred bytes.  What
can be added at the end of a rule set's text is white space. -/
theorem RuleSet.ofJson_truncated [Dialect] :
    (∀ (kept dropped : String) (rules : RuleSet), RuleSet.ofJson (kept ++ dropped) = .ok rules →
        (∀ token ∈ numberTokens (utf8 (kept ++ dropped)), token.length ≤ 300) →
        (∃ c ∈ dropped.toList, c = ']' ∨ c = '\x7d') →
        RuleSet.ofJson kept = .error .endOfText) ∧
      ∀ (text more : String) (rules rules' : RuleSet), RuleSet.ofJson text = .ok rules →
        RuleSet.ofJson (text ++ more) = .ok rules' → Spaces more.toList ∧ rules' = rules := by
  constructor
  · intro kept dropped rules h hshort hbracket
    rw [RuleSet.ofJson_eq_ofBytes, utf8_append] at h
    rw [utf8_append] at hshort
    rw [RuleSet.ofJson_eq_ofBytes]
    refine ofBytes_of_truncated h hshort fun hspace => ?_
    rw [utf8_eq_bytesOf] at hspace
    obtain ⟨c, hc, hclosing⟩ := hbracket
    have hmem := spaces_of_isSpace (List.all_eq_true.1 hspace) c hc
    rcases hclosing with rfl | rfl <;> simp at hmem
  · intro text more rules rules' h h'
    rw [RuleSet.ofJson_eq_ofBytes] at h
    rw [RuleSet.ofJson_eq_ofBytes, utf8_append] at h'
    obtain ⟨hspace, hsame⟩ := isSpace_of_ofBytes_append h h'
    rw [utf8_eq_bytesOf] at hspace
    exact ⟨spaces_of_isSpace (List.all_eq_true.1 hspace), hsame⟩

/-- A rule set in which a number is cut inside its exponent. -/
theorem RuleSet.ofJson_truncated_exponent :
    (∃ rules, RuleSet.ofJson ("[\"Or\",[[\"e]\",\"LessThan\",1e-3" ++ "00]]]") = .ok rules) ∧
      (∀ token ∈ numberTokens (utf8 ("[\"Or\",[[\"e]\",\"LessThan\",1e-3" ++ "00]]]")),
        token.length ≤ 300) ∧
      RuleSet.ofJson "[\"Or\",[[\"e]\",\"LessThan\",1e-3" = .error .endOfText := by
  have hread : ∃ rules,
      RuleSet.ofJson ("[\"Or\",[[\"e]\",\"LessThan\",1e-3" ++ "00]]]") = .ok rules :=
    ⟨.anyOf [⟨"e]", .lessThan, some (.float (.ofRatio false 1 (10 ^ 300)))⟩], by decide +kernel⟩
  have hshort : ∀ token ∈ numberTokens (utf8 ("[\"Or\",[[\"e]\",\"LessThan\",1e-3" ++ "00]]]")),
      token.length ≤ 300 := by
    decide +kernel
  obtain ⟨rules, hrules⟩ := hread
  exact ⟨⟨rules, hrules⟩, hshort,
    RuleSet.ofJson_truncated.1 _ _ rules hrules hshort ⟨']', by simp, .inl rfl⟩⟩

end RecordFilter
