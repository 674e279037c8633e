import Mathlib
import RecordFilter.Proofs.Json.RuleSetForm
import RecordFilter.Proofs.Json.UncheckedStrings

/-!
# Three ways of loading a rule set

A rule set is decoded from a text, from a stream of bytes, or from a file.  A file is asked
first whether it holds text; a stream is not, only its strings are, one by one.

The three ways agree all the same.  On the bytes of a text all of them return what the text
decodes to, or the same fault, since no string in it fails the check
(`RuleSet.ofJson_eq_ofBytes`).  On other bytes there is no rule set to be had: a file is
refused because it holds no text, and a stream has no tree (`Tree.isText_of_parse`), wherever
in it the bytes stand that spell no character.
-/

namespace RecordFilter

open Json Text

/-- Only the bytes of a text decode to a rule set. -/
theorem RuleSet.exists_text_of_ofBytes [Dialect] {bytes : List UInt8} {rules : RuleSet}
    (h : RuleSet.ofBytes bytes = .ok rules) :
    ∃ text, bytes = utf8 text ∧ RuleSet.ofJson text = .ok rules := by
  obtain ⟨tree, hparse, -⟩ := RuleSet.ofBytes_eq_ok_iff.1 h
  obtain ⟨text, htext⟩ := isText_iff_ofUtf8?.1 (Tree.isText_of_parse hparse)
  obtain rfl := ofUtf8?_eq_some_iff.1 htext
  exact ⟨text, rfl, (ofJson_eq_ofBytes text).trans h⟩

/-- A text, a stream and a file that hold the same have the same outcome.  Bytes that are not
UTF-8 are refused as no text where they are the contents of a file, and are never a rule set
where they come as a stream. -/
theorem RuleSet.ofBytes_ofFile_agree [Dialect] (bytes : List UInt8) :
    (∀ text, ofUtf8? bytes = some text →
        RuleSet.ofBytes bytes = RuleSet.ofJson text ∧
          RuleSet.ofFile (some bytes) = (RuleSet.ofJson text).mapError .json) ∧
      (ofUtf8? bytes = none →
        RuleSet.ofFile (some bytes) = .error .fileNotText ∧
          ∀ rules, RuleSet.ofBytes bytes ≠ .ok rules) := by
  constructor
  · intro text htext
    refine ⟨?_, ?_⟩
    · rw [ofUtf8?_eq_some_iff.1 htext, ofJson_eq_ofBytes]
    · simp only [ofFile, htext]
  · intro hnone
    refine ⟨by simp only [ofFile, hnone], fun rules hok => ?_⟩
    obtain ⟨text, rfl, -⟩ := exists_text_of_ofBytes hok
    rw [ofUtf8?_utf8] at hnone
    cases hnone

/-- A field of two bytes, the same where the second byte is missing, and the first byte of a
character behind a rule set. -/
theorem RuleSet.ofBytes_ofFile_agree_umlaut :
    (RuleSet.ofBytes (utf8 "[\"And\",[[\"" ++ [0xC3, 0xA4] ++ utf8 "\",\"Equal\",1]]]") =
        RuleSet.ofJson "[\"And\",[[\"ä\",\"Equal\",1]]]" ∧
      RuleSet.ofJson "[\"And\",[[\"ä\",\"Equal\",1]]]" =
        .ok (.allOf [⟨"ä", .equal, some (.int 1)⟩])) ∧
      (∀ rules, RuleSet.ofBytes (utf8 "[\"And\",[[\"" ++ [0xC3] ++ utf8 "\",\"Equal\",1]]]") ≠
        .ok rules) ∧
      RuleSet.ofFile (some (utf8 "[\"And\",[[\"ä\",\"Equal\",1]]]" ++ [0xC3])) =
        .error .fileNotText := by
  refine ⟨⟨?_, by decide +kernel⟩, ?_, ?_⟩
  · exact ((ofBytes_ofFile_agree _).1 _ (by decide +kernel)).1
  · exact ((ofBytes_ofFile_agree _).2 (by decide +kernel)).2
  · exact ((ofBytes_ofFile_agree _).2 (by decide +kernel)).1

end RecordFilter
